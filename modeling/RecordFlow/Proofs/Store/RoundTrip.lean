import RecordFlow.Proofs.Files.Tree
import RecordFlow.Proofs.Json.RoundTrip
import RecordFlow.Proofs.Source.JsonFiles
import RecordFlow.Proofs.Store.Place
import RecordFlow.Source.Open

/-!
# Reading back what a store was given

Whatever was offered to a store before, the file at a place holds the last record that belongs
there. So batches written one after another into an empty directory leave one file for each
identifier, and reading the directory gives the last records in the order of the digests.
-/
namespace RecordFlow.Store

variable (s : Store)

/-- Nothing stands at the path of the identifier, or null, false or what is rendered as nothing. -/
def Unidentified (r : Record) : Prop :=
  s.idPath.resolve r = none ∨ s.idPath.resolve r = some .null ∨
    s.idPath.resolve r = some (.bool false) ∨
    ∃ v, s.idPath.resolve r = some v ∧ Record.render v = ""

/-- The last of the records that is stored at a place. -/
def lastAt (records : List Record) (names : List String) : Option Record :=
  records.reverse.find? fun r => (s.identifier? r).map place == some names

/-- The last of the records with an identifier. -/
def lastWith (records : List Record) (identifier : String) : Option Record :=
  records.reverse.find? fun r => s.identifier? r == some identifier

/-- The tree after some records were offered: the last one at each place, and no other file. -/
structure Holds (records : List Record) (top : Files.Node) : Prop where
  level : top.Level 17
  files : ∀ names, top.fileAt? names =
    (s.lastAt records names).map fun r => Utf8.ofString (Json.compact r)

variable {s}

theorem identifier?_eq_none_iff {r : Record} : s.identifier? r = none ↔ s.Unidentified r := by
  have filtered (text : String) :
      (some text).filter (fun id => !id.isEmpty) = none ↔ text = "" := by
    simp [Option.filter_some]
  rw [identifier?, Unidentified]
  cases found : s.idPath.resolve r with
  | none => simp
  | some v =>
    cases v with
    | null => simp
    | bool b =>
      cases b with
      | false => simp
      | true => simp [filtered]
    | _ => simp [filtered]

instance (r : Record) : Decidable (s.Unidentified r) :=
  decidable_of_iff (s.identifier? r = none) identifier?_eq_none_iff

theorem holds_nothing : s.Holds [] .empty :=
  ⟨Files.Node.level_empty 16, fun names => Files.Node.fileAt?_empty names⟩

/-! ## One record -/

theorem put_level {top : Files.Node} (h : top.Level 17) (identifier : String) (text : Bytes) :
    ∃ last, put identifier text top =
        (.ok (if (top.fileAt? (place identifier)).isSome then 0 else 1), last) ∧
      last.Level 17 ∧ ∀ asked, last.fileAt? asked =
        if asked = place identifier then some text else top.fileAt? asked := by
  obtain ⟨made, created, level, parent, same⟩ := Files.Node.createDirectories_level
    (Nat.le_of_eq (length_directories identifier)) h
  obtain ⟨last, wrote, level', written⟩ := Files.Node.write_level (length_place identifier) level
    (fun _ => by rw [place, List.dropLast_concat]; exact parent) text
  refine ⟨last, ?_, level', ?_⟩
  · have present := Files.Node.isPresent_eq_isSome level (length_place identifier)
    simp only [put, created, wrote, present, same]
  · intro asked
    rw [written, same]

theorem lastAt_append (records : List Record) (r : Record) (names : List String) :
    s.lastAt (records ++ [r]) names =
      if (s.identifier? r).map place = some names then some r else s.lastAt records names := by
  rw [lastAt, List.reverse_append, List.reverse_singleton, List.singleton_append,
    List.find?_cons]
  by_cases here : (s.identifier? r).map place = some names
  · rw [if_pos here, beq_iff_eq.mpr here]
  · rw [if_neg here, beq_eq_false_iff_ne.mpr here]
    rfl

/-- What offering one record does: the last record at each place is up to date again, a new file is
counted, and so is a record that is skipped. -/
theorem writeRecord_holds {records : List Record} {top : Files.Node} (h : s.Holds records top)
    (r : Record) : ∃ outcome last log, s.writeRecord r top = (.ok outcome, last, log) ∧
      s.Holds (records ++ [r]) last ∧ ∀ stats : Stats,
        (stats.count outcome).files + top.files.length = stats.files + last.files.length ∧
        (stats.count outcome).skipped =
          stats.skipped + if s.Unidentified r then 1 else 0 := by
  simp only [← identifier?_eq_none_iff]
  cases found : s.identifier? r with
  | none =>
    refine ⟨.skipped, top, _, by rw [writeRecord, found], ⟨h.level, ?_⟩, ?_⟩
    · intro names
      rw [lastAt_append, found, h.files]
      rfl
    · intro stats
      exact ⟨rfl, rfl⟩
  | some identifier =>
    obtain ⟨last, stored, level, written⟩ :=
      put_level h.level identifier (Utf8.ofString (Json.compact r))
    let created := if (top.fileAt? (place identifier)).isSome then 0 else 1
    refine ⟨.written (Utf8.ofString (Json.compact r)).length created, last, [], ?_, ⟨level, ?_⟩, ?_⟩
    · rw [writeRecord, found]
      simp only [stored]
      rfl
    · intro names
      rw [written, lastAt_append, found, h.files, Option.map_some]
      by_cases here : names = place identifier
      · rw [if_pos here, if_pos (congrArg some here.symm), Option.map_some]
      · rw [if_neg here, if_neg fun same => here (Option.some.inj same).symm]
    · intro stats
      have length : last.files.length = top.files.length + created :=
        Files.Node.length_files_written h.level.distinct level.distinct written
      refine ⟨?_, rfl⟩
      rw [length, Nat.add_comm top.files.length, ← Nat.add_assoc]
      rfl

theorem writeRecord_skipped_iff (r : Record) (top : Files.Node) :
    (s.writeRecord r top).1 = .ok .skipped ↔ s.Unidentified r := by
  rw [← identifier?_eq_none_iff, writeRecord]
  cases s.identifier? r with
  | none => simp
  | some identifier =>
    cases stored : put identifier (Utf8.ofString (Json.compact r)) top with
    | mk outcome last => cases outcome <;> simp [stored]

/-! ## Batches -/

/-- Runs of one store one after another: their results and the tree that is left. -/
def writeBatches (s : Store) :
    List (List Record) → Files.Node → List (Except Error Stats) × Files.Node
  | [], top => ([], top)
  | batch :: rest, top =>
    let run := s.sink.writeAll top (batch.map .ok)
    let (results, last) := writeBatches s rest run.state
    (run.result :: results, last)

/-- The files that some runs created. -/
def filesCreated (runs : List Stats) : Nat := runs.foldr (fun run count => run.files + count) 0

theorem writeFrom_holds {before : List Record} {top : Files.Node} (h : s.Holds before top)
    (records : List Record) (stats : Stats) :
    ∃ total last log, s.sink.writeFrom stats top (records.map .ok) = ⟨.ok total, last, [], log⟩ ∧
      s.Holds (before ++ records) last ∧
      total.files + top.files.length = stats.files + last.files.length ∧
      total.skipped = stats.skipped + records.countP (s.Unidentified ·) := by
  induction records generalizing before top stats with
  | nil => exact ⟨stats, top, [], rfl, by rwa [List.append_nil], rfl, rfl⟩
  | cons r records ih =>
    obtain ⟨outcome, next, log, wrote, holds, counts⟩ := writeRecord_holds h r
    obtain ⟨total, last, later, ran, held, files, skipped⟩ := ih holds (stats.count outcome)
    refine ⟨total, last, log ++ later, ?_, ?_, ?_, ?_⟩
    · rw [List.map_cons, Sink.writeFrom_cons wrote, ran]
    · rwa [List.append_assoc, List.singleton_append] at held
    · have step := (counts stats).1
      omega
    · rw [skipped, (counts stats).2, List.countP_cons, Nat.add_assoc,
        Nat.add_comm (List.countP _ _)]
      simp only [decide_eq_true_eq]

theorem writeBatches_holds {before : List Record} {top : Files.Node} (h : s.Holds before top)
    (batches : List (List Record)) :
    ∃ (stats : List Stats) (last : Files.Node),
      s.writeBatches batches top = (stats.map .ok, last) ∧
      s.Holds (before ++ batches.flatten) last ∧
      filesCreated stats + top.files.length = last.files.length ∧
      stats.map Stats.skipped = batches.map fun batch => batch.countP (s.Unidentified ·) := by
  induction batches generalizing before top with
  | nil => exact ⟨[], top, rfl, by rwa [List.flatten_nil, List.append_nil], Nat.zero_add _, rfl⟩
  | cons batch batches ih =>
    obtain ⟨total, next, log, ran, holds, files, skipped⟩ := writeFrom_holds h batch .zero
    obtain ⟨stats, last, later, held, created, counts⟩ := ih holds
    refine ⟨total :: stats, last, ?_, ?_, ?_, ?_⟩
    · rw [writeBatches, Sink.writeAll, ran]
      simp only [later, List.map_cons]
    · rwa [List.flatten_cons, ← List.append_assoc]
    · have sum : filesCreated (total :: stats) = total.files + filesCreated stats := rfl
      have none : Stats.zero.files = 0 := rfl
      omega
    · rw [List.map_cons, List.map_cons, counts, skipped]
      rw [show Stats.zero.skipped = 0 from rfl, Nat.zero_add]

/-! ## Identifiers -/

variable (s)

/-- Different identifiers of the records have different digests. -/
def Distinguished (records : List Record) : Prop :=
  ∀ r ∈ records, ∀ r' ∈ records, ∀ id id', s.identifier? r = some id →
    s.identifier? r' = some id' → hexOf id = hexOf id' → id = id'

/-- The last record with each identifier that occurs, in the order of the digests. -/
structure Holdings (records : List Record) (stored : List (String × Record)) : Prop where
  last : ∀ id r, (id, r) ∈ stored ↔ s.lastWith records id = some r
  ordered : stored.Pairwise fun e e' => hexOf e.1 < hexOf e'.1

variable {s}

theorem of_lastWith {records : List Record} {id : String} {r : Record}
    (h : s.lastWith records id = some r) : r ∈ records ∧ s.identifier? r = some id := by
  constructor
  · exact List.mem_reverse.mp (List.mem_of_find?_eq_some h)
  · have found := List.find?_some h
    exact beq_iff_eq.mp found

theorem lastAt_place {records : List Record} (apart : s.Distinguished records) {id : String}
    {r : Record} (member : r ∈ records) (identified : s.identifier? r = some id) :
    s.lastAt records (place id) = s.lastWith records id := by
  -- a place tells the digest, and among these records the digest tells the identifier
  rw [lastAt, lastWith, ← List.head?_filter, ← List.head?_filter]
  congr 1
  apply List.filter_congr
  intro r' member'
  rw [Bool.eq_iff_iff, beq_iff_eq, beq_iff_eq, Option.map_eq_some_iff]
  constructor
  · rintro ⟨id', identified', same⟩
    rw [identified', apart r' (List.mem_reverse.mp member') r member id' id identified' identified
      (hexOf_eq_of_place_eq same)]
  · intro identified'
    exact ⟨id, identified', rfl⟩

/-- The files of the tree are those of the last records. -/
theorem Holds.mem_files {records : List Record} {top : Files.Node} (h : s.Holds records top)
    (apart : s.Distinguished records) {file : List String × Bytes} :
    file ∈ top.files ↔ ∃ id r, s.lastWith records id = some r ∧
      file = (place id, Utf8.ofString (Json.compact r)) := by
  obtain ⟨names, bytes⟩ := file
  rw [Files.Node.mem_files h.level.distinct, h.files, Option.map_eq_some_iff]
  constructor
  · rintro ⟨r, last, rfl⟩
    have member : r ∈ records := List.mem_reverse.mp (List.mem_of_find?_eq_some last)
    have placed : (s.identifier? r).map place = some names := by
      have found := List.find?_some last
      exact beq_iff_eq.mp found
    obtain ⟨id, identified, rfl⟩ := Option.map_eq_some_iff.mp placed
    exact ⟨id, r, lastAt_place apart member identified ▸ last, rfl⟩
  · rintro ⟨id, r, last, same⟩
    obtain ⟨rfl, rfl⟩ := Prod.mk.inj same
    obtain ⟨member, identified⟩ := of_lastWith last
    exact ⟨r, (lastAt_place apart member identified).trans last, rfl⟩

theorem exists_map_eq {α β : Type} {f : α → β} {P : α → Prop} {bs : List β}
    (h : ∀ b ∈ bs, ∃ a, P a ∧ b = f a) : ∃ as : List α, bs = as.map f ∧ ∀ a ∈ as, P a := by
  induction bs with
  | nil => exact ⟨[], rfl, nofun⟩
  | cons b bs ih =>
    obtain ⟨⟨a, good, rfl⟩, there⟩ := List.forall_mem_cons.mp h
    obtain ⟨as, rfl, later⟩ := ih there
    exact ⟨a :: as, rfl, List.forall_mem_cons.mpr ⟨good, later⟩⟩

theorem Holds.perm_sorted {records : List Record} {top : Files.Node} (h : s.Holds records top)
    (apart : s.Distinguished records) : (JsonFiles.sorted top).Perm top.files := by
  have every : (top.files.filter fun f => JsonFiles.isJson f.1) = top.files := by
    apply List.filter_eq_self.mpr
    intro f member
    obtain ⟨id, r, -, rfl⟩ := (h.mem_files apart).mp member
    exact isJson_place id
  exact every ▸ JsonFiles.perm_sorted top

/-- The sorted files of the tree are the documents of the last records. -/
theorem Holds.sorted {records : List Record} {top : Files.Node} (h : s.Holds records top)
    (apart : s.Distinguished records) : ∃ stored, s.Holdings records stored ∧
      JsonFiles.sorted top = stored.map fun e => (place e.1, Utf8.ofString (Json.compact e.2)) := by
  have perm := h.perm_sorted apart
  have each : ∀ f ∈ JsonFiles.sorted top, ∃ e : String × Record,
      s.lastWith records e.1 = some e.2 ∧ f = (place e.1, Utf8.ofString (Json.compact e.2)) := by
    intro f member
    obtain ⟨id, r, last, same⟩ := (h.mem_files apart).mp (perm.mem_iff.mp member)
    exact ⟨(id, r), last, same⟩
  obtain ⟨stored, listed, lasts⟩ := exists_map_eq each
  refine ⟨stored, ⟨?_, ?_⟩, listed⟩
  · intro id r
    refine ⟨lasts (id, r), ?_⟩
    intro last
    have member := perm.mem_iff.mpr ((h.mem_files apart).mpr ⟨id, r, last, rfl⟩)
    rw [listed] at member
    obtain ⟨e, inside, same⟩ := List.mem_map.mp member
    obtain ⟨member', identified'⟩ := of_lastWith (lasts e inside)
    obtain ⟨member, identified⟩ := of_lastWith last
    have ids : e.1 = id := apart e.2 member' r member _ _ identified' identified
      (hexOf_eq_of_place_eq (Prod.mk.inj same).1)
    have records : e.2 = r := Option.some.inj ((lasts e inside).symm.trans (ids ▸ last))
    rwa [← ids, ← records]
  · have names := JsonFiles.sorted_lt h.level.distinct
    rw [listed, List.pairwise_map] at names
    apply names.imp
    intro e e' below
    exact hexOf_lt_of_place_lt below

/-! ## Reading the directory -/

theorem take_files (path : String) (files : List (List String × Bytes)) (calls : Nat) :
    ((Source.files ⟨path, files⟩).take calls).1 =
      (files.map (JsonFiles.readFile path)).take calls := by
  induction calls generalizing files with
  | zero => rfl
  | succ calls ih =>
    cases files with
    | nil => rfl
    | cons file files => exact congrArg (_ :: ·) (ih files)

theorem readFile_document (path : String) (names : List String) {r : Record} (h : r.Portable) :
    JsonFiles.readFile path (names, Utf8.ofString (Json.compact r)) = .ok r := by
  rw [JsonFiles.readFile, Utf8.toString?_ofString]
  simp only [Json.parse_compact h]

theorem openAny_directory (path : String) {top : Files.Node} {depth : Nat}
    (h : top.Level (depth + 1)) (tolerance : Jsonl.Tolerance) (sampleSize : Nat) :
    Source.openAny ⟨path, top⟩ "" tolerance sampleSize =
      (.ok (.files ⟨path, JsonFiles.sorted top⟩), []) := by
  cases top with
  | file bytes => cases h
  | directory entries => rfl

/-- Batches of portable records leave an empty directory with one file for each identifier, and the
file holds the last record written with it. The new files and the records without an identifier are
counted. Opening the directory gives the last records in the order of their digests. -/
theorem openAny_writeBatches (s : Store) (batches : List (List Record))
    (portable : ∀ r ∈ batches.flatten, r.Portable) (apart : s.Distinguished batches.flatten) :
    ∃ (stats : List Stats) (top : Files.Node) (stored : List (String × Record)),
      s.writeBatches batches .empty = (stats.map .ok, top) ∧
      s.Holdings batches.flatten stored ∧
      top.files.Perm (stored.map fun e => (place e.1, Utf8.ofString (Json.compact e.2))) ∧
      filesCreated stats = stored.length ∧
      stats.map Stats.skipped = batches.map (fun batch => batch.countP (s.Unidentified ·)) ∧
      (∀ r node, (s.writeRecord r node).1 = .ok .skipped ↔ s.Unidentified r) ∧
      ∀ path tolerance sampleSize, ∃ f,
        Source.openAny ⟨path, top⟩ "" tolerance sampleSize = (.ok (.files f), []) ∧
        ∀ calls, ((Source.files f).take calls).1 = (stored.map fun e => .ok e.2).take calls := by
  obtain ⟨stats, top, ran, holds, files, skipped⟩ := writeBatches_holds holds_nothing batches
  rw [List.nil_append] at holds
  obtain ⟨stored, holdings, listed⟩ := holds.sorted apart
  have perm := listed ▸ (holds.perm_sorted apart).symm
  have count : filesCreated stats = stored.length := by
    have none : Files.Node.empty.files.length = 0 := rfl
    rw [none, Nat.add_zero, perm.length_eq, List.length_map] at files
    exact files
  refine ⟨stats, top, stored, ran, holdings, perm, count, skipped, writeRecord_skipped_iff, ?_⟩
  intro path tolerance sampleSize
  refine ⟨_, openAny_directory path holds.level tolerance sampleSize, ?_⟩
  intro calls
  rw [take_files, listed, List.map_map]
  congr 1
  apply List.map_congr_left
  intro e member
  have last := (holdings.last e.1 e.2).mp member
  exact readFile_document path _ (portable e.2 (of_lastWith last).1)

/-- Two batches: a record that the second batch overwrites, one without an identifier, and one with
another identifier. -/
theorem openAny_writeBatches_overwritten :
    let s : Store := ⟨⟨[.field "id"]⟩⟩
    let first : Record := .object [("id", .string "a"), ("n", .bool false)]
    let nameless : Record := .object [("id", .null)]
    let other : Record := .object [("id", .string "b")]
    let last : Record := .object [("n", .bool true), ("id", .string "a")]
    let records : List Record := [first, nameless, other, last]
    (∀ r ∈ records, r.Portable) ∧ s.Distinguished records ∧
    ∃ (stats : List Stats) (top : Files.Node) (stored : List (String × Record)),
      s.writeBatches [[first, nameless], [other, last]] .empty = (stats.map .ok, top) ∧
      ("a", last) ∈ stored ∧ ("b", other) ∈ stored ∧
      filesCreated stats = stored.length ∧ stats.map Stats.skipped = [1, 0] ∧
      ∃ f, Source.openAny ⟨"records", top⟩ "" ⟨true, 100⟩ 512 = (.ok (.files f), []) ∧
        ∀ calls, ((Source.files f).take calls).1 = (stored.map fun e => .ok e.2).take calls := by
  intro s first nameless other last records
  have portable : ∀ r ∈ records, r.Portable := by decide
  have identifiers : records.filterMap s.identifier? = ["a", "b", "a"] := rfl
  have known (r : Record) (member : r ∈ records) (id : String) (found : s.identifier? r = some id) :
      id = "a" ∨ id = "b" := by
    have inside : id ∈ records.filterMap s.identifier? := List.mem_filterMap.mpr ⟨r, member, found⟩
    rw [identifiers] at inside
    simpa [or_comm] using inside
  have differ : hexOf "a" ≠ hexOf "b" := by decide +kernel
  have apart : s.Distinguished records := by
    intro r member r' member' id id' found found' same
    rcases known r member id found with rfl | rfl <;>
      rcases known r' member' id' found' with rfl | rfl
    · rfl
    · exact absurd same differ
    · exact absurd same.symm differ
    · rfl
  obtain ⟨stats, top, stored, ran, holdings, -, count, skipped, -, opened⟩ :=
    openAny_writeBatches s [[first, nameless], [other, last]] portable apart
  exact ⟨portable, apart, stats, top, stored, ran, (holdings.last _ _).mpr rfl,
    (holdings.last _ _).mpr rfl, count, skipped, opened "records" ⟨true, 100⟩ 512⟩

end RecordFlow.Store
