import RecordFlow.Proofs.Files.Relisted
import RecordFlow.Source.JsonFiles

/-!
# Directories of JSON files in any listing order

The files to be read are told by which files can be found, and so is their order, because the names
that lead to a file are compared strictly. Relisting a tree changes nothing about them. Every call
gives what one file says, whatever the other files hold.
-/
namespace RecordFlow

namespace Files

theorem precedes_iff_not_lt {as bs : List String} : precedes as bs = true ↔ ¬ bs < as := by
  induction as generalizing bs with
  | nil => simp [precedes]
  | cons a as ih =>
    cases bs with
    | nil => simp [precedes]
    | cons b bs =>
      rw [precedes, List.not_lt, List.cons_le_cons_iff, ← List.not_lt, ← ih]
      by_cases same : a = b <;> simp [same]

end Files

namespace JsonFiles

open Files (Node)

/-! ## The order of the files -/

theorem perm_sorted (node : Node) :
    (sorted node).Perm (node.files.filter fun f => isJson f.1) :=
  List.mergeSort_perm _ _

theorem pairwise_sorted (node : Node) : (sorted node).Pairwise fun f g => ¬ g.1 < f.1 := by
  have trans (f g h : List String × Bytes) : Files.precedes f.1 g.1 = true →
      Files.precedes g.1 h.1 = true → Files.precedes f.1 h.1 = true := by
    simp only [Files.precedes_iff_not_lt, List.not_lt]
    exact List.le_trans
  have total (f g : List String × Bytes) :
      (Files.precedes f.1 g.1 || Files.precedes g.1 f.1) = true := by
    rw [Bool.or_eq_true, Files.precedes_iff_not_lt, Files.precedes_iff_not_lt, List.not_lt,
      List.not_lt]
    exact List.le_total _ _
  exact (List.pairwise_mergeSort trans total _).imp Files.precedes_iff_not_lt.mp

theorem mem_sorted {node : Node} (h : node.Distinct) {names : List String} {bytes : Bytes} :
    (names, bytes) ∈ sorted node ↔ node.fileAt? names = some bytes ∧ isJson names = true := by
  rw [(perm_sorted node).mem_iff, List.mem_filter, Node.mem_files h]

/-- No two files have the same names, so the order is strict. -/
theorem sorted_lt {node : Node} (h : node.Distinct) :
    (sorted node).Pairwise fun f g => f.1 < g.1 := by
  have nodup : ((sorted node).map Prod.fst).Nodup :=
    ((perm_sorted node).map Prod.fst).nodup_iff.mpr
      ((Node.nodup_files h).sublist (List.filter_sublist.map Prod.fst))
  apply ((pairwise_sorted node).and (List.pairwise_map.mp nodup)).imp
  rintro f g ⟨below, apart⟩
  exact (List.le_iff_lt_or_eq.mp (List.not_lt.mp below)).resolve_right apart

theorem nodup_of_lt {files : List (List String × Bytes)}
    (ordered : files.Pairwise fun f g => f.1 < g.1) : files.Nodup := by
  apply ordered.imp
  intro f g below same
  rw [same] at below
  exact List.lt_irrefl g.1 below

/-- A strictly ordered list with the JSON files that can be found is the list of them. -/
theorem sorted_eq {node : Node} (h : node.Distinct) {files : List (List String × Bytes)}
    (ordered : files.Pairwise fun f g => f.1 < g.1)
    (found : ∀ names bytes, (names, bytes) ∈ files ↔
      node.fileAt? names = some bytes ∧ isJson names = true) : sorted node = files := by
  have perm : (sorted node).Perm files := by
    apply (List.perm_ext_iff_of_nodup (nodup_of_lt (sorted_lt h)) (nodup_of_lt ordered)).mpr
    rintro ⟨names, bytes⟩
    rw [mem_sorted h, found]
  apply perm.eq_of_pairwise _ (sorted_lt h) ordered
  intro f g _ _ below above
  exact absurd above (List.lt_asymm below)

/-! ## Calls -/

section Calls

variable (denied : Denials)

/-- What is left after some calls. -/
def after (f : JsonFiles) : (calls : Nat) → JsonFiles
  | 0 => f
  | calls + 1 => ((f.after calls).nextUnder denied).2

theorem nextUnder_eq (f : JsonFiles) :
    f.nextUnder denied = (f.files.head?.map (readUnder denied f.path), ⟨f.path, f.files.tail⟩) := by
  cases f with
  | mk path files => cases files <;> rfl

theorem after_eq (f : JsonFiles) (calls : Nat) :
    f.after denied calls = ⟨f.path, f.files.drop calls⟩ := by
  induction calls with
  | zero => rfl
  | succ calls ih => rw [after, nextUnder_eq, ih, List.tail_drop]

theorem remaining_after (f : JsonFiles) (calls : Nat) :
    (f.after denied calls).remaining = f.files.length - calls := by
  rw [after_eq]
  exact List.length_drop

theorem next_after (f : JsonFiles) (calls : Nat) : ((f.after denied calls).nextUnder denied).1 =
    f.files[calls]?.map (readUnder denied f.path) := by
  rw [after_eq, nextUnder_eq, List.head?_drop]

theorem readUnder_eq_ok_iff {path : String} {names : List String} {bytes : Bytes} {r : Record} :
    readUnder denied path (names, bytes) = .ok r ↔ denied names = none ∧
      ∃ text, Utf8.toString? bytes = some text ∧ Json.parse text = .ok r := by
  rw [readUnder]
  cases denied names with
  | some message => simp
  | none =>
    dsimp only
    rw [readFile]
    cases Utf8.toString? bytes with
    | none => simp
    | some text => cases parsed : Json.parse text <;> simp [parsed]

end Calls

/-! ## Relisted directories -/

theorem sorted_relisted {node other : Node} (h : node.Relisted other) :
    sorted node = sorted other := by
  obtain ⟨distinct, unique⟩ := h.distinct
  apply sorted_eq distinct (sorted_lt unique)
  intro names bytes
  rw [mem_sorted unique, h.fileAt?]

theorem start_eq_of_relisted {node other : Node} (h : node.Relisted other) (top path : String) :
    start ⟨top, node⟩ path = start ⟨top, other⟩ path := by
  have both := Files.Volume.find?_relisted (v := ⟨top, node⟩) (w := ⟨top, other⟩) h path
  unfold start
  generalize Files.Volume.find? ⟨top, node⟩ path = left at both ⊢
  generalize Files.Volume.find? ⟨top, other⟩ path = right at both ⊢
  cases both with
  | lost f => rfl
  | found related =>
    have same := sorted_relisted related
    cases related with
    | file bytes => rfl
    | directory distinct moves inside =>
      dsimp only
      rw [same]
      rfl

/-- Reading a directory does not depend on the order in which it and the directories below it list
their entries. The files are those whose extension is `json`, each once, in the order of their names
from the outside in. However many calls were made, the next one gives what the next file says or
nothing after the last, and what remains are the files that were not read. A file gives a record
exactly if it may be read and holds a JSON text, and an error in its place otherwise. -/
theorem start_relisted {node other : Node} (relisted : node.Relisted other) (top path : String) :
    start ⟨top, node⟩ path = start ⟨top, other⟩ path ∧
    ∀ entries, Files.Volume.find? ⟨top, node⟩ path = .ok (.directory entries) →
      ∃ f, start ⟨top, node⟩ path = .ok f ∧
        f.files.Pairwise (fun a b => a.1 < b.1) ∧
        (∀ names bytes, (names, bytes) ∈ f.files ↔
          (Node.directory entries).fileAt? names = some bytes ∧ isJson names = true) ∧
        ∀ denied : Denials,
          (∀ calls,
            (f.after denied calls).remaining = f.files.length - calls ∧
            ((f.after denied calls).nextUnder denied).1 =
              f.files[calls]?.map (readUnder denied f.path)) ∧
          ∀ names bytes r, readUnder denied f.path (names, bytes) = .ok r ↔
            denied names = none ∧
              ∃ text, Utf8.toString? bytes = some text ∧ Json.parse text = .ok r := by
  refine ⟨start_eq_of_relisted relisted top path, ?_⟩
  intro entries found
  have both := Files.Volume.find?_relisted (v := ⟨top, node⟩) (w := ⟨top, other⟩) relisted path
  rw [found] at both
  obtain ⟨moved, -, related⟩ := both.of_ok
  have distinct := related.distinct.1
  refine ⟨_, by rw [start, found], sorted_lt distinct, fun names bytes => mem_sorted distinct, ?_⟩
  intro denied
  refine ⟨?_, fun names bytes r => readUnder_eq_ok_iff denied⟩
  intro calls
  exact ⟨remaining_after denied _ calls, next_after denied _ calls⟩

/-- A directory with the name of a JSON file, a file that may not be read and one that is not text,
in two listing orders. The file below `a` comes before `a-b.json`. -/
theorem start_relisted_nested :
    let bad : Bytes := [0xff]
    let text : Bytes := Utf8.ofString "{}"
    let node : Node := .directory [
      ("x.json", .directory [("y.txt", .file text), ("y.json", .file text)]),
      ("a-b.json", .file bad),
      ("a", .directory [("b.json", .file text)])]
    let other : Node := .directory [
      ("a", .directory [("b.json", .file text)]),
      ("a-b.json", .file bad),
      ("x.json", .directory [("y.json", .file text), ("y.txt", .file text)])]
    let denied : Denials := fun names =>
      if names = ["a", "b.json"] then some "Permission denied (os error 13)" else none
    node.Relisted other ∧ start ⟨"records", node⟩ "" = start ⟨"records", other⟩ "" ∧
    ∃ f, start ⟨"records", node⟩ "" = .ok f ∧
      f.files = [(["a", "b.json"], text), (["a-b.json"], bad), (["x.json", "y.json"], text)] ∧
      ∀ calls, (f.after denied calls).remaining = 3 - calls ∧
        ((f.after denied calls).nextUnder denied).1 =
          [.error (.io "Permission denied (os error 13)"), .error (.io ReadFailure.notText.message),
            .ok (.object [])][calls]? := by
  intro bad text node other denied
  have relisted : node.Relisted other := by
    refine .directory (by decide) (List.reverse_perm _).symm ?_
    refine .entry "a" ?_ (.entry "a-b.json" (.file bad) (.entry "x.json" ?_ .noEntries))
    · exact .directory (by decide) (.refl _) (.entry "b.json" (.file text) .noEntries)
    · exact .directory (by decide) (.swap _ _ _)
        (.entry "y.json" (.file text) (.entry "y.txt" (.file text) .noEntries))
  have distinct := relisted.distinct.1
  obtain ⟨same, opened⟩ := start_relisted relisted "records" ""
  obtain ⟨f, started, -, -, run⟩ := opened _ rfl
  obtain rfl : ⟨"records", sorted node⟩ = f := Except.ok.inj started
  have told : sorted node =
      [(["a", "b.json"], text), (["a-b.json"], bad), (["x.json", "y.json"], text)] := by
    have perm : [(["a", "b.json"], text), (["a-b.json"], bad), (["x.json", "y.json"], text)].Perm
        (node.files.filter fun f => isJson f.1) := by decide
    apply sorted_eq distinct (by decide)
    intro names bytes
    rw [perm.mem_iff, List.mem_filter, Node.mem_files distinct]
  refine ⟨relisted, same, _, started, told, ?_⟩
  intro calls
  obtain ⟨remaining, next⟩ := (run denied).1 calls
  rw [remaining, next, told, ← List.getElem?_map]
  exact ⟨rfl, rfl⟩

end JsonFiles
end RecordFlow
