import RecordFlow.Source.JsonFiles
import RecordFlow.Store.Basic

/-!
# Places of stored records

A place is a row of seventeen names that says the whole digest, so it is the place of one digest
only. The order of places is the order of digests, and the file at a place is a JSON file.
-/
namespace RecordFlow

namespace Files

/-- Rows of one length decide, or else what follows them. -/
theorem append_lt_append_iff {cs ds : List Char} (same : cs.length = ds.length)
    {after behind : List Char} :
    cs ++ after < ds ++ behind ↔ cs < ds ∨ cs = ds ∧ after < behind := by
  induction cs generalizing ds with
  | nil =>
    cases ds with
    | nil => simp
    | cons d ds => cases same
  | cons c cs ih =>
    cases ds with
    | nil => cases same
    | cons d ds =>
      rw [List.cons_append, List.cons_append, List.cons_lt_cons_iff, List.cons_lt_cons_iff,
        ih (Nat.succ.inj same), List.cons.injEq, and_or_left, and_assoc, or_assoc]

end Files

namespace Store

theorem length_hexOf (identifier : String) : (hexOf identifier).length = 64 := by
  simp [hexOf, Sha256.hex, Sha256.toList, Sha256.wordHex]

theorem fours_succ {cs : List Char} (h : cs ≠ []) (count : Nat) :
    fours (count + 1) cs = cs.take 4 :: fours count (cs.drop 4) := by
  cases cs with
  | nil => contradiction
  | cons c cs => rfl

theorem length_fours {quads count : Nat} (enough : quads ≤ count) {cs : List Char}
    (whole : cs.length = 4 * quads) : (fours count cs).length = quads := by
  induction quads generalizing count cs with
  | zero =>
    cases List.length_eq_zero_iff.mp whole
    cases count <;> rfl
  | succ quads ih =>
    cases count with
    | zero => cases enough
    | succ count =>
      rw [fours_succ (List.ne_nil_of_length_eq_add_one whole), List.length_cons,
        ih (Nat.le_of_succ_le_succ enough) (by rw [List.length_drop, whole]; omega)]

theorem length_directories (identifier : String) :
    (directories (hexOf identifier)).length = 16 := by
  have whole : (hexOf identifier).length = 4 * 16 := length_hexOf identifier
  rw [directories, List.length_map, length_hexOf, length_fours (by omega) whole]

theorem length_place (identifier : String) : (place identifier).length = 17 := by
  rw [place, List.length_append, length_directories]
  rfl

/-- The file name says the whole digest. -/
theorem hexOf_eq_of_place_eq {id id' : String} (h : place id = place id') :
    hexOf id = hexOf id' := by
  have singles : [fileName (hexOf id)].length = [fileName (hexOf id')].length := by
    rw [List.length_singleton, List.length_singleton]
  have named : fileName (hexOf id) = fileName (hexOf id') :=
    (List.cons.inj (List.append_inj' h singles).2).1
  have chars := congrArg String.toList named
  simpa only [fileName, String.toList_ofList, List.append_left_inj] using chars

theorem fours_lt_fours {quads count : Nat} (enough : quads ≤ count) {cs ds : List Char}
    (whole : cs.length = 4 * quads) (whole' : ds.length = 4 * quads) (h : cs < ds)
    (after behind : List String) :
    (fours count cs).map String.ofList ++ after < (fours count ds).map String.ofList ++ behind := by
  induction quads generalizing count cs ds with
  | zero =>
    cases List.length_eq_zero_iff.mp whole
    cases List.length_eq_zero_iff.mp whole'
    cases h
  | succ quads ih =>
    cases count with
    | zero => cases enough
    | succ count =>
      rw [fours_succ (List.ne_nil_of_length_eq_add_one whole),
        fours_succ (List.ne_nil_of_length_eq_add_one whole'), List.map_cons, List.map_cons,
        List.cons_append, List.cons_append, List.cons_lt_cons_iff]
      rw [← List.take_append_drop 4 cs, ← List.take_append_drop 4 ds,
        Files.append_lt_append_iff (by rw [List.length_take, List.length_take]; omega)] at h
      -- the first four digits decide, or they agree and the others do
      rcases h with first | ⟨same, later⟩
      · left
        rwa [String.lt_iff, String.toList_ofList, String.toList_ofList]
      · right
        exact ⟨congrArg String.ofList same, ih (Nat.le_of_succ_le_succ enough)
          (by rw [List.length_drop, whole]; omega) (by rw [List.length_drop, whole']; omega) later⟩

theorem place_lt_place {id id' : String} (h : hexOf id < hexOf id') : place id < place id' := by
  have whole (id : String) : (hexOf id).length = 4 * 16 := length_hexOf id
  rw [place, place, directories, directories, length_hexOf, length_hexOf]
  exact fours_lt_fours (by omega) (whole id) (whole id') h _ _

theorem hexOf_lt_of_place_lt {id id' : String} (h : place id < place id') :
    hexOf id < hexOf id' := by
  have above : ¬ hexOf id' < hexOf id := fun below => List.lt_asymm h (place_lt_place below)
  apply (List.le_iff_lt_or_eq.mp (List.not_lt.mp above)).resolve_right
  intro same
  rw [place, place, same] at h
  exact List.lt_irrefl _ h

theorem extension?_fileName {hex : List Char} (h : hex ≠ []) :
    Files.extension? (fileName hex).toList = some "json".toList := by
  have reversed : (fileName hex).toList.reverse = "nosj.".toList ++ hex.reverse := by
    rw [fileName, String.toList_ofList, List.reverse_append]
    rfl
  have named : ((fileName hex).toList == ['.', '.']) = false := by
    rw [fileName, String.toList_ofList, beq_eq_false_iff_ne]
    intro same
    have lengths := congrArg List.length same
    rw [List.length_append] at lengths
    cases lengths
  have after : ((fileName hex).toList.reverse.takeWhile (· != '.')).reverse = "json".toList := by
    rw [reversed]; rfl
  have before : (((fileName hex).toList.reverse.dropWhile (· != '.')).drop 1).isEmpty = false := by
    rw [reversed]
    change hex.reverse.isEmpty = false
    rwa [List.isEmpty_reverse, List.isEmpty_eq_false_iff]
  rw [Files.extension?, before, named, after]
  rfl

theorem isJson_place (identifier : String) : JsonFiles.isJson (place identifier) = true := by
  have nonempty : hexOf identifier ≠ [] :=
    List.ne_nil_of_length_eq_add_one (length_hexOf identifier)
  rw [JsonFiles.isJson, place, List.getLast?_append, List.getLast?_singleton, Option.some_or]
  simp only [extension?_fileName nonempty, beq_self_eq_true]

end Store
end RecordFlow
