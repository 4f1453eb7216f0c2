import RecordFlow.Proofs.Files.Listing

/-!
# Trees of one depth

In a tree whose files all lie equally deep no file is in the way of a directory and no directory in
the way of a file. Making directories down to the files and writing a file succeed in it, keep it so
and change nothing but the file that was written.
-/
namespace RecordFlow.Files.Node

/-- The names lead to a directory. -/
def HasDirectory (names : List String) (node : Node) : Prop :=
  ∃ entries, node.find? names = .ok (directory entries)

/-- Every file lies at this depth, and no directory lists a name twice. -/
def Level : Nat → Node → Prop
  | 0, file _ => True
  | 0, directory _ => False
  | _ + 1, file _ => False
  | depth + 1, directory entries =>
    (entries.map Prod.fst).Nodup ∧ ∀ e ∈ entries, Level depth e.2

theorem level_empty (depth : Nat) : empty.Level (depth + 1) := ⟨List.nodup_nil, nofun⟩

theorem Level.distinct {depth : Nat} {node : Node} (h : node.Level depth) : node.Distinct := by
  induction depth generalizing node with
  | zero =>
    cases node with
    | directory entries => cases h
    | file bytes => exact .file bytes
  | succ depth ih =>
    cases node with
    | file bytes => cases h
    | directory entries => exact .directory h.1 fun e member => ih (h.2 e member)

/-! ## Entries -/

theorem level_put {depth : Nat} {entries : List (String × Node)}
    (h : (directory entries).Level (depth + 1)) (name : String) {node : Node}
    (inner : node.Level depth) : (directory (Named.put name node entries)).Level (depth + 1) := by
  obtain ⟨distinct, levels⟩ := h
  constructor
  · exact Named.nodup_put distinct name node
  · intro e member
    rcases Named.mem_put member with rfl | old
    · exact inner
    · exact levels e old

/-! ## Looking up files -/

theorem fileAt?_empty (names : List String) : empty.fileAt? names = none := by
  cases names <;> rfl

theorem fileAt?_put (name : String) (node : Node) (entries : List (String × Node))
    (first : String) (rest : List String) :
    (directory (Named.put name node entries)).fileAt? (first :: rest) =
      if first = name then node.fileAt? rest
      else (directory entries).fileAt? (first :: rest) := by
  rw [fileAt?_directory_cons, Named.lookup_put, fileAt?_directory_cons]
  split <;> rfl

/-- At the depth of the files there is nothing else. -/
theorem isPresent_eq_isSome {depth : Nat} {node : Node} (h : node.Level depth)
    {names : List String} (deep : names.length = depth) :
    node.isPresent names = (node.fileAt? names).isSome := by
  induction names generalizing depth node with
  | nil =>
    subst deep
    cases node with
    | file bytes => rfl
    | directory entries => cases h
  | cons name rest ih =>
    subst deep
    cases node with
    | file bytes => cases h
    | directory entries =>
      rw [fileAt?_directory_cons, isPresent, find?]
      cases found : entries.lookup name with
      | none => rfl
      | some inner => exact ih (h.2 _ (Named.mem_of_lookup found)) rfl

/-! ## Making directories -/

theorem hasDirectory_cons {entries : List (String × Node)} {name : String} {rest : List String} :
    (directory entries).HasDirectory (name :: rest) ↔
      ∃ node, entries.lookup name = some node ∧ node.HasDirectory rest := by
  rw [HasDirectory, find?]
  cases entries.lookup name with
  | none => simp
  | some node => simp [HasDirectory]

theorem createDirectories_level {depth : Nat} {names : List String} (above : names.length ≤ depth)
    {node : Node} (h : node.Level (depth + 1)) :
    ∃ last, node.createDirectories names = .ok last ∧ last.Level (depth + 1) ∧
      last.HasDirectory names ∧ ∀ asked, last.fileAt? asked = node.fileAt? asked := by
  induction names generalizing depth node with
  | nil =>
    cases node with
    | file bytes => cases h
    | directory entries => exact ⟨_, rfl, h, ⟨entries, rfl⟩, fun _ => rfl⟩
  | cons name rest ih =>
    cases depth with
    | zero => cases above
    | succ depth =>
      cases node with
      | file bytes => cases h
      | directory entries =>
        have inner : ((entries.lookup name).getD empty).Level (depth + 1) := by
          cases found : entries.lookup name with
          | none => exact level_empty depth
          | some node => exact h.2 _ (Named.mem_of_lookup found)
        obtain ⟨last, made, level, there, same⟩ := ih (Nat.le_of_succ_le_succ above) inner
        refine ⟨directory (Named.put name last entries), ?_, level_put h name level,
          hasDirectory_cons.mpr ⟨last, ?_, there⟩, ?_⟩
        · rw [createDirectories, made]
        · rw [Named.lookup_put, if_pos rfl]
        · intro asked
          cases asked with
          | nil => rfl
          | cons first asked =>
            rw [fileAt?_put]
            split
            · next here =>
              rw [same, here, fileAt?_directory_cons]
              cases entries.lookup name with
              | none => exact fileAt?_empty asked
              | some node => rfl
            · rfl

/-! ## Writing -/

theorem fileAt?_put_written {name : String} {rest : List String} {bytes : Bytes}
    {entries : List (String × Node)} {node : Node}
    (inner : ∀ asked, node.fileAt? asked =
      if asked = rest then some bytes else (directory entries).fileAt? (name :: asked))
    (asked : List String) : (directory (Named.put name node entries)).fileAt? asked =
      if asked = name :: rest then some bytes else (directory entries).fileAt? asked := by
  cases asked with
  | nil => rfl
  | cons first asked =>
    simp only [fileAt?_put, List.cons.injEq]
    split
    · next here => simp only [inner, here, true_and]
    · next apart => rw [if_neg fun same => apart same.1]

theorem write_into {entries : List (String × Node)} {name : String} {rest : List String}
    {node last : Node} {bytes : Bytes} (found : entries.lookup name = some node)
    (wrote : node.write bytes rest = .ok last) : (directory entries).write bytes (name :: rest) =
      .ok (directory (Named.put name last entries)) := by
  rw [write.eq_def]
  simp only [found, wrote]

theorem write_new {entries : List (String × Node)} {name : String}
    (found : entries.lookup name = none) (bytes : Bytes) : (directory entries).write bytes [name] =
      .ok (directory (Named.put name (file bytes) entries)) := by
  rw [write.eq_def]
  simp only [found]

/-- `names` lead to the file, and all but the last of them to a directory that is there. -/
theorem write_level {depth : Nat} {names : List String} (deep : names.length = depth)
    {node : Node} (h : node.Level depth)
    (parent : names ≠ [] → node.HasDirectory names.dropLast) (bytes : Bytes) :
    ∃ last, node.write bytes names = .ok last ∧ last.Level depth ∧
      ∀ asked, last.fileAt? asked = if asked = names then some bytes else node.fileAt? asked := by
  induction names generalizing depth node with
  | nil =>
    subst deep
    cases node with
    | directory entries => cases h
    | file old =>
      refine ⟨file bytes, rfl, trivial, ?_⟩
      intro asked
      cases asked with
      | nil => rfl
      | cons name rest => rfl
  | cons name rest ih =>
    subst deep
    cases node with
    | file old => cases h
    | directory entries =>
      cases found : entries.lookup name with
      | some node =>
        have inner : rest ≠ [] → node.HasDirectory rest.dropLast := by
          intro further
          have there := parent (List.cons_ne_nil name rest)
          rw [List.dropLast_cons_of_ne_nil further, hasDirectory_cons, found] at there
          obtain ⟨_, same, there⟩ := there
          cases same
          exact there
        obtain ⟨last, wrote, level, same⟩ := ih rfl (h.2 _ (Named.mem_of_lookup found)) inner
        refine ⟨_, write_into found wrote, level_put h name level,
          fileAt?_put_written ?_⟩
        intro asked
        rw [same, fileAt?_directory_cons, found, Option.bind_some]
      | none =>
        cases rest with
        | nil =>
          refine ⟨_, write_new found bytes, level_put h name trivial,
            fileAt?_put_written ?_⟩
          intro asked
          rw [fileAt?_directory_cons, found]
          cases asked <;> rfl
        | cons second rest =>
          have there := parent (List.cons_ne_nil name _)
          rw [List.dropLast_cons_of_ne_nil (List.cons_ne_nil second rest), hasDirectory_cons,
            found] at there
          obtain ⟨_, same, -⟩ := there
          cases same

end RecordFlow.Files.Node
