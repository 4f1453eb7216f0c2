import RecordFlow.Files.Tree

/-!
# Listing the files of a tree

Where no directory lists a name twice, the files that a tree lists are those that can be found in
it, and none of them is listed twice.
-/
namespace RecordFlow.Files.Node

/-- The bytes of the file that the names lead to. -/
def fileAt? (names : List String) (node : Node) : Option Bytes :=
  match node.find? names with
  | .ok (file bytes) => some bytes
  | _ => none

/-- No directory lists a name twice. -/
inductive Distinct : Node → Prop
  | file (bytes : Bytes) : Distinct (file bytes)
  | directory {entries : List (String × Node)} : (entries.map Prod.fst).Nodup →
      (∀ e ∈ entries, Distinct e.2) → Distinct (directory entries)

/-! ## Looking up files -/

@[simp] theorem fileAt?_file_nil (bytes : Bytes) : (file bytes).fileAt? [] = some bytes := rfl

@[simp] theorem fileAt?_file_cons (bytes : Bytes) (name : String) (rest : List String) :
    (file bytes).fileAt? (name :: rest) = none := rfl

@[simp] theorem fileAt?_directory_nil (entries : List (String × Node)) :
    (directory entries).fileAt? [] = none := rfl

theorem fileAt?_directory_cons (entries : List (String × Node)) (name : String)
    (rest : List String) : (directory entries).fileAt? (name :: rest) =
      (entries.lookup name).bind (fileAt? rest) := by
  rw [fileAt?, find?]
  cases entries.lookup name <;> rfl

/-! ## What is listed -/

theorem mem_filesIn {entries : List (String × Node)} {names : List String} {bytes : Bytes} :
    (names, bytes) ∈ filesIn entries ↔
      ∃ e ∈ entries, ∃ rest, names = e.1 :: rest ∧ (rest, bytes) ∈ e.2.files := by
  induction entries with
  | nil => simp [filesIn]
  | cons e entries ih =>
    obtain ⟨name, node⟩ := e
    rw [filesIn, List.mem_append, ih]
    constructor
    · rintro (here | ⟨e, member, later⟩)
      · obtain ⟨⟨rest, _⟩, listed, same⟩ := List.mem_map.mp here
        cases same
        exact ⟨_, List.mem_cons_self, rest, rfl, listed⟩
      · exact ⟨e, List.mem_cons_of_mem _ member, later⟩
    · rintro ⟨e, member, rest, rfl, listed⟩
      rcases List.mem_cons.mp member with rfl | later
      · exact .inl (List.mem_map.mpr ⟨(rest, bytes), listed, rfl⟩)
      · exact .inr ⟨e, later, rest, rfl, listed⟩

/-- The files that are listed are those that can be found. -/
theorem mem_files {node : Node} (h : node.Distinct) {names : List String} {bytes : Bytes} :
    (names, bytes) ∈ node.files ↔ node.fileAt? names = some bytes := by
  induction h generalizing names with
  | file old =>
    cases names with
    | nil => simp [files, eq_comm]
    | cons name rest => simp [files]
  | @directory entries distinct _ ih =>
    rw [files, mem_filesIn]
    cases names with
    | nil => simp
    | cons name rest =>
      rw [fileAt?_directory_cons, Option.bind_eq_some_iff]
      constructor
      · rintro ⟨⟨first, node⟩, member, _, same, listed⟩
        obtain ⟨rfl, rfl⟩ := List.cons.inj same
        exact ⟨node, Named.lookup_of_mem distinct member, (ih _ member).mp listed⟩
      · rintro ⟨node, found, listed⟩
        have member := Named.mem_of_lookup found
        exact ⟨(name, node), member, rest, rfl, (ih _ member).mpr listed⟩

theorem nodup_filesIn {entries : List (String × Node)} (distinct : (entries.map Prod.fst).Nodup)
    (each : ∀ e ∈ entries, (e.2.files.map Prod.fst).Nodup) :
    ((filesIn entries).map Prod.fst).Nodup := by
  induction entries with
  | nil => exact List.nodup_nil
  | cons e entries ih =>
    obtain ⟨name, node⟩ := e
    rw [List.map_cons, List.nodup_cons] at distinct
    obtain ⟨here, there⟩ := List.forall_mem_cons.mp each
    rw [filesIn, List.map_append, List.nodup_append]
    refine ⟨?_, ih distinct.2 there, ?_⟩
    · rw [List.map_map]
      have inner : ((node.files.map Prod.fst).map (name :: ·)).Nodup :=
        List.Pairwise.map _ (fun a b apart same => apart (List.cons.inj same).2) here
      rwa [List.map_map] at inner
    -- files of different entries differ in their first name
    · rintro _ first _ later rfl
      obtain ⟨f, listed, named⟩ := List.mem_map.mp first
      obtain ⟨f', -, rfl⟩ := List.mem_map.mp listed
      obtain ⟨⟨_, bytes⟩, listed', rfl⟩ := List.mem_map.mp later
      obtain ⟨e, member, rest, same, -⟩ := mem_filesIn.mp listed'
      cases named.trans same
      exact distinct.1 (List.mem_map.mpr ⟨e, member, rfl⟩)

/-- No file is listed twice. -/
theorem nodup_files {node : Node} (h : node.Distinct) : (node.files.map Prod.fst).Nodup := by
  induction h with
  | file old => exact List.nodup_cons.mpr ⟨List.not_mem_nil, List.nodup_nil⟩
  | directory distinct _ ih =>
    rw [files]
    exact nodup_filesIn distinct ih

theorem mem_names {node : Node} (h : node.Distinct) {names : List String} :
    names ∈ node.files.map Prod.fst ↔ (node.fileAt? names).isSome = true := by
  rw [Option.isSome_iff_exists]
  constructor
  · intro member
    obtain ⟨⟨_, bytes⟩, listed, rfl⟩ := List.mem_map.mp member
    exact ⟨bytes, (mem_files h).mp listed⟩
  · rintro ⟨bytes, found⟩
    exact List.mem_map_of_mem (f := Prod.fst) ((mem_files h).mpr found)

/-- Writing a file adds one to those that are listed unless it was there. -/
theorem length_files_written {node last : Node} (h : node.Distinct) (unique : last.Distinct)
    {names : List String} {bytes : Bytes}
    (written : ∀ asked, last.fileAt? asked =
      if asked = names then some bytes else node.fileAt? asked) :
    last.files.length = node.files.length + if (node.fileAt? names).isSome then 0 else 1 := by
  have either (asked : List String) : asked ∈ last.files.map Prod.fst ↔
      asked = names ∨ asked ∈ node.files.map Prod.fst := by
    rw [mem_names unique, mem_names h, written]
    split
    · next here => simp [here]
    · next apart => simp [apart]
  have count (node : Node) : (node.files.map Prod.fst).length = node.files.length :=
    List.length_map _
  rw [← count last, ← count node]
  split
  · next there =>
    apply List.Perm.length_eq
    apply (List.perm_ext_iff_of_nodup (nodup_files unique) (nodup_files h)).mpr
    intro asked
    rw [either, or_iff_right_iff_imp]
    rintro rfl
    exact (mem_names h).mpr there
  · next fresh =>
    have absent : names ∉ node.files.map Prod.fst := fun member => fresh ((mem_names h).mp member)
    rw [← List.length_cons (a := names)]
    apply List.Perm.length_eq
    apply (List.perm_ext_iff_of_nodup (nodup_files unique)
      (List.nodup_cons.mpr ⟨absent, nodup_files h⟩)).mpr
    intro asked
    rw [either, List.mem_cons]

end RecordFlow.Files.Node
