import RecordFlow.Proofs.Files.Listing

/-!
# Trees listed in another order

Two trees are relistings of each other when nothing but the order in which their directories list
the entries tells them apart. Names lead to relistings in both, so the same files are found.
-/
namespace RecordFlow.Files

namespace Node

mutual

/-- The same tree but for the order of entries, in the directories at any depth. A directory lists
no name twice. -/
inductive Relisted : Node → Node → Prop
  | file (bytes : Bytes) : Relisted (file bytes) (file bytes)
  | directory {entries moved others : List (String × Node)}
      (distinct : (entries.map Prod.fst).Nodup) (moves : entries.Perm moved)
      (same : RelistedEntries moved others) : Relisted (directory entries) (directory others)

/-- Relistings under the same names, which stand in the same order. -/
inductive RelistedEntries : List (String × Node) → List (String × Node) → Prop
  | noEntries : RelistedEntries [] []
  | entry (name : String) {node other : Node} {entries others : List (String × Node)}
      (first : Relisted node other) (rest : RelistedEntries entries others) :
      RelistedEntries ((name, node) :: entries) ((name, other) :: others)

end

/-- Neither of two relistings has a directory that lists a name twice. -/
theorem Relisted.distinct {node other : Node} (h : node.Relisted other) :
    node.Distinct ∧ other.Distinct := by
  induction h using Relisted.rec
    (motive_2 := fun entries others _ => entries.map Prod.fst = others.map Prod.fst ∧
      (∀ e ∈ entries, e.2.Distinct) ∧ ∀ e ∈ others, e.2.Distinct) with
  | file bytes => exact ⟨.file bytes, .file bytes⟩
  | directory distinct moves same inside =>
    obtain ⟨names, left, right⟩ := inside
    refine ⟨.directory distinct fun e member => left e (moves.mem_iff.mp member),
      .directory ?_ right⟩
    rw [← names]
    exact (moves.map Prod.fst).nodup_iff.mp distinct
  | noEntries => exact ⟨rfl, nofun, nofun⟩
  | entry name first rest here later =>
    obtain ⟨names, left, right⟩ := later
    exact ⟨congrArg (name :: ·) names, List.forall_mem_cons.mpr ⟨here.1, left⟩,
      List.forall_mem_cons.mpr ⟨here.2, right⟩⟩

/-! ## Looking up -/

/-- Both have an entry of the name, and then relistings, or neither has one. -/
theorem RelistedEntries.lookup {entries others : List (String × Node)}
    (h : RelistedEntries entries others) (name : String) :
    Option.Rel Relisted (entries.lookup name) (others.lookup name) := by
  induction entries generalizing others with
  | nil =>
    cases h
    exact .none
  | cons e entries ih =>
    cases h with
    | entry first related rest =>
      rw [Named.lookup_cons, Named.lookup_cons]
      split
      · exact .some related
      · exact ih rest

/-- What the same names lead to in relistings. -/
inductive Alike : Except Fault Node → Except Fault Node → Prop
  | found {node other : Node} : node.Relisted other → Alike (.ok node) (.ok other)
  | lost (f : Fault) : Alike (.error f) (.error f)

theorem Alike.of_ok {node : Node} {outcome : Except Fault Node} (h : Alike (.ok node) outcome) :
    ∃ other, outcome = .ok other ∧ node.Relisted other := by
  cases h with
  | found related => exact ⟨_, rfl, related⟩

theorem Relisted.find? {node other : Node} (h : node.Relisted other) (names : List String) :
    Alike (node.find? names) (other.find? names) := by
  induction names generalizing node other with
  | nil => exact .found h
  | cons name rest ih =>
    cases h with
    | file bytes => exact .lost .notDirectory
    | @directory entries moved others distinct moves same =>
      have both := same.lookup name
      rw [Node.find?, Node.find?, Named.lookup_perm moves distinct]
      generalize moved.lookup name = left at both ⊢
      generalize others.lookup name = right at both ⊢
      cases both with
      | none => exact .lost .notFound
      | some related => exact ih related

theorem Relisted.fileAt? {node other : Node} (h : node.Relisted other) (names : List String) :
    node.fileAt? names = other.fileAt? names := by
  have both := h.find? names
  unfold Node.fileAt?
  generalize node.find? names = left at both ⊢
  generalize other.find? names = right at both ⊢
  cases both with
  | found related => cases related <;> rfl
  | lost f => rfl

end Node

/-- A path leads to relistings in volumes whose trees are relistings. -/
theorem Volume.find?_relisted {v w : Volume} (h : v.top.Relisted w.top) (path : String) :
    Node.Alike (v.find? path) (w.find? path) := by
  have both := h.find? (components path)
  unfold Volume.find?
  generalize v.top.find? (components path) = left at both ⊢
  generalize w.top.find? (components path) = right at both ⊢
  cases both with
  | lost f => exact .lost f
  | found related =>
    cases related with
    | directory distinct moves same => exact .found (.directory distinct moves same)
    | file bytes =>
      dsimp only
      split
      · exact .lost .notDirectory
      · exact .found (.file bytes)

end RecordFlow.Files
