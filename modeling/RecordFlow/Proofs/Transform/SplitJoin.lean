import RecordFlow.Proofs.Text.Decimal
import RecordFlow.Proofs.Text.Split
import RecordFlow.Proofs.Transform.Independence

/-!
# Splitting and joining again

A split writes its parts to numbered targets. Different numbers give different keys, so no part
overwrites another, and a join of all the numbered paths puts the parts together again.
-/
namespace RecordFlow

open Value Segments

namespace Segment

/-- A key with a place for a number. -/
def HasPlaceholder : Segment → Prop
  | field key => ['\x7b', '\x7d'] <:+: key.toList
  | index _ => False

theorem isField_fillPlaceholder (number : List Char) (s : Segment) :
    (s.fillPlaceholder number).isField = s.isField := by
  cases s <;> rfl

theorem fillPlaceholder_inj {s : Segment} (h : s.HasPlaceholder) {a b : List Char}
    (same : s.fillPlaceholder a = s.fillPlaceholder b) : a = b := by
  cases s with
  | index i => cases h
  | field key =>
    have keys := Segment.field.inj same
    rw [String.ofList_inj] at keys
    exact Text.replace_inj (List.cons_ne_nil _ _) h keys

end Segment

/-! ## Numbered targets -/

/-- Paths that a map of segments makes of one path lie apart unless they are equal. -/
theorem Segments.same_or_apart {f g : Segment → Segment}
    (kinds : ∀ s, (f s).isField = (g s).isField) (p : List Segment) :
    p.map f = p.map g ∨ Apart (p.map f) (p.map g) := by
  induction p with
  | nil => exact .inl rfl
  | cons s p ih =>
    rw [List.map_cons, List.map_cons]
    by_cases first : f s = g s
    · rw [first]
      exact ih.imp (congrArg _) (.there (g s))
    · exact .inr (.here _ _ first (kinds s))

namespace Path

variable {target : Path} {m n : Nat}

theorem withPlaceholder_inj (numbered : ∃ s ∈ target.segments, s.HasPlaceholder)
    (same : target.withPlaceholder m = target.withPlaceholder n) : m = n := by
  obtain ⟨s, member, place⟩ := numbered
  have filled := List.map_inj_left.mp (Path.mk.inj same) s member
  exact Json.naturalText_inj (Segment.fillPlaceholder_inj place filled)

theorem Keyed.withPlaceholder (keyed : target.Keyed) (n : Nat) :
    (target.withPlaceholder n).Keyed := by
  constructor
  · intro empty
    exact keyed.1 (List.map_eq_nil_iff.mp empty)
  · intro s member
    obtain ⟨t, inside, rfl⟩ := List.mem_map.mp member
    rw [Segment.isField_fillPlaceholder, keyed.2 t inside]

/-- Two numbered paths have the same kinds of segments, so at their first difference both have a
key. -/
theorem apart_withPlaceholder (numbered : ∃ s ∈ target.segments, s.HasPlaceholder)
    (differ : m ≠ n) :
    Apart (target.withPlaceholder m).segments (target.withPlaceholder n).segments := by
  have kinds (s : Segment) : (s.fillPlaceholder (Json.naturalText m)).isField =
      (s.fillPlaceholder (Json.naturalText n)).isField := by
    rw [Segment.isField_fillPlaceholder, Segment.isField_fillPlaceholder]
  rcases Segments.same_or_apart kinds target.segments with same | apart
  · exact absurd (withPlaceholder_inj numbered (congrArg Path.mk same)) differ
  · exact apart

/-- The targets with the numbers from one on. -/
def numberedUpTo (target : Path) (count : Nat) : List Path :=
  (List.range count).map fun i => target.withPlaceholder (i + 1)

end Path

namespace Output

/-- Writes that lie apart all stay. -/
theorem resolve_writeAll_of_pairwise {out out' : Output} {es : List (Path × Value)}
    (h : out.writeAll es = .ok out')
    (apart : es.Pairwise fun e e' => Apart e.1.segments e'.1.segments) :
    ∀ e ∈ es, e.1.resolve out'.record = some e.2 := by
  induction es generalizing out with
  | nil => exact nofun
  | cons e es ih =>
    obtain ⟨here, there⟩ := List.pairwise_cons.mp apart
    obtain ⟨mid, first, later⟩ := writeAll_cons_eq_ok.mp h
    refine List.forall_mem_cons.mpr ⟨?_, ih later there⟩
    rw [resolve_writeAll_of_apart later fun e' member => (here e' member).symm]
    exact resolve_put (write_eq_ok_iff.mp first).2.1

end Output

namespace Transform

open Output

variable {source : Record} {target : Path}

theorem numbered_paths (target : Path) (parts : List Value) :
    (numbered target parts).map Prod.fst = target.numberedUpTo parts.length := by
  rw [numbered, Path.numberedUpTo, List.map_map, List.range_eq_range', ← List.zipIdx_map_snd,
    List.map_map]
  rfl

theorem numbered_values (target : Path) (parts : List Value) :
    (numbered target parts).map Prod.snd = parts := by
  rw [numbered, List.map_map]
  exact List.zipIdx_map_fst 0 parts

theorem numbered_apart (placed : ∃ s ∈ target.segments, s.HasPlaceholder) (parts : List Value) :
    (numbered target parts).Pairwise fun e e' => Apart e.1.segments e'.1.segments := by
  have paths : (target.numberedUpTo parts.length).Pairwise
      fun p q => Apart p.segments q.segments := by
    refine List.pairwise_map.mpr (List.nodup_range.imp fun differ => ?_)
    exact Path.apart_withPlaceholder placed (mt Nat.succ.inj differ)
  rwa [← numbered_paths, List.pairwise_map] at paths

/-- A split writes every part to its own target, and all of them are there in the end. -/
theorem split_writes (splitter : String) (origin : Path) (keyed : target.Keyed)
    (placed : ∃ s ∈ target.segments, s.HasPlaceholder) {parts : List Value}
    (split_parts : splitParts splitter (origin.resolve source) = parts) :
    ∃ wide, (split target splitter origin).apply source (.start .empty) =
        .ok ⟨wide, target.numberedUpTo parts.length⟩ ∧
      (target.numberedUpTo parts.length).map (·.resolve wide) = parts.map some := by
  have keys : ∀ e ∈ numbered target parts, e.1.Keyed := by
    intro e member
    obtain ⟨⟨v, i⟩, -, rfl⟩ := List.mem_map.mp member
    exact keyed.withPlaceholder (i + 1)
  obtain ⟨⟨wide, log⟩, done⟩ := exists_writeAll keys (.start .empty)
  have written : log = target.numberedUpTo parts.length := by
    rw [← numbered_paths]
    exact (writeAll_eq_ok_iff.mp done).2.2
  subst written
  refine ⟨wide, ?_, ?_⟩
  · rw [apply, split_parts]
    exact done
  · rw [← numbered_paths, List.map_map]
    conv => rhs; rw [← numbered_values target parts, List.map_map]
    exact List.map_congr_left (resolve_writeAll_of_pairwise done (numbered_apart placed parts))

/-- Sources that are texts give these texts, one source as well as several. -/
theorem joinParts_texts {wide : Record} {paths : List Path} {parts : List String}
    (texts : paths.map (·.resolve wide) = parts.map fun part => some (.string part)) :
    joinParts wide paths = parts := by
  have rendered : paths.map (renderAt wide) = parts := by
    have each := congrArg (List.map fun v => (Option.map Record.render v).getD "") texts
    rw [List.map_map, List.map_map] at each
    exact each.trans (List.map_id _)
  unfold joinParts
  split
  · next path =>
    obtain ⟨part, rfl⟩ : ∃ part, parts = [part] := ⟨_, rendered.symm⟩
    have text : path.resolve wide = some (.string part) := by simpa using texts
    rw [text]
    exact rendered
  · exact rendered

theorem textParts_of_splitter {splitter : String} (separator : splitter ≠ "") (x : String) :
    textParts splitter x = (Text.splitOn splitter.toList x.toList).map String.ofList := by
  have nonempty : splitter.isEmpty = false := by simpa using separator
  rw [textParts, nonempty]
  rfl

theorem joinStrings_textParts {splitter : String} (separator : splitter ≠ "") (x : String) :
    Text.joinStrings splitter (textParts splitter x) = x := by
  have nonempty : splitter.toList ≠ [] := by simpa using separator
  have texts : (String.toList ∘ String.ofList) = id := funext fun _ => String.toList_ofList
  rw [textParts_of_splitter separator, Text.joinStrings, List.map_map, texts, List.map_id,
    Text.join_splitOn nonempty, String.ofList_toList]

theorem textParts_ne_nil {splitter : String} (separator : splitter ≠ "") (x : String) :
    textParts splitter x ≠ [] := by
  obtain ⟨first, others, pieces⟩ := Text.splitOn_eq_cons splitter.toList x.toList
  rw [textParts_of_splitter separator, pieces]
  exact List.cons_ne_nil _ _

theorem not_infix_of_mem_textParts {splitter x part : String} (separator : splitter ≠ "")
    (h : part ∈ textParts splitter x) : ¬ splitter.toList <:+: part.toList := by
  have nonempty : splitter.toList ≠ [] := by simpa using separator
  rw [textParts_of_splitter separator] at h
  obtain ⟨piece, member, rfl⟩ := List.mem_map.mp h
  rw [String.toList_ofList]
  exact Text.not_infix_of_mem_splitOn nonempty member

/-! ## All parts stay -/

/-- How a value falls into parts: a sequence into its items, a text into pieces that are free of the
splitter and joined by it are the text. If the splitter is empty, a text falls into the pieces
between its blanks that are not empty. Anything else has no parts. -/
inductive Parts (splitter : String) : Option Value → List Value → Prop
  | items (items : List Value) : Parts splitter (some (.array items)) items
  | pieces {text : String} (pieces : List String) : splitter ≠ "" → text ≠ "" →
      Text.joinStrings splitter pieces = text →
      (∀ piece ∈ pieces, ¬ splitter.toList <:+: piece.toList) →
      Parts splitter (some (.string text)) (pieces.map .string)
  | words (text : String) : splitter = "" → Parts splitter (some (.string text))
      (((text.toList.splitOnP Text.isBlank).filter (!·.isEmpty)).map (.string ∘ String.ofList))
  | none {found : Option Value} : (∀ items, found ≠ some (.array items)) →
      (∀ text, text ≠ "" → found ≠ some (.string text)) → Parts splitter found []

theorem parts_string (splitter text : String) :
    Parts splitter (some (.string text)) (splitParts splitter (some (.string text))) := by
  by_cases empty : text = ""
  · subst empty
    exact .none (fun _ => nofun) (by simp)
  · have full : text.isEmpty = false := by simpa using empty
    rw [splitParts, full]
    by_cases separator : splitter = ""
    · have blanks : splitter.isEmpty = true := by simpa using separator
      have words : (textParts splitter text).map Value.string =
          ((text.toList.splitOnP Text.isBlank).filter (!·.isEmpty)).map
            (.string ∘ String.ofList) := by
        rw [textParts, blanks, ← Text.words_eq, ← List.map_map]
        rfl
      exact words ▸ .words text separator
    · exact .pieces (textParts splitter text) separator empty (joinStrings_textParts separator text)
        fun _ => not_infix_of_mem_textParts separator

theorem parts_splitParts (splitter : String) (found : Option Value) :
    Parts splitter found (splitParts splitter found) := by
  cases found with
  | none => exact .none (fun _ => nofun) (fun _ _ => nofun)
  | some v =>
    cases v with
    | array items => exact .items items
    | string text => exact parts_string splitter text
    | _ => exact .none (fun _ => nofun) (fun _ _ => nofun)

theorem mem_numbered {parts : List Value} {i : Nat} {part : Value} (h : parts[i]? = some part) :
    (target.withPlaceholder (i + 1), part) ∈ numbered target parts :=
  List.mem_map.mpr ⟨(part, i), List.mem_zipIdx_iff_getElem?.mpr h, rfl⟩

/-- A split that succeeds, on any output, leaves every part at its numbered target. Targets with
different numbers are different, and none is the beginning of another. -/
theorem split_keeps_parts {splitter : String} {origin : Path} {out out' : Output}
    (placed : ∃ s ∈ target.segments, s.HasPlaceholder)
    (h : (split target splitter origin).apply source out = .ok out') :
    let parts := splitParts splitter (origin.resolve source)
    Parts splitter (origin.resolve source) parts ∧
      (∀ (i : Nat) (part : Value), parts[i]? = some part →
        (target.withPlaceholder (i + 1)).resolve out'.record = some part) ∧
      ∀ m n : Nat, m ≠ n → target.withPlaceholder m ≠ target.withPlaceholder n ∧
        ¬ (target.withPlaceholder m).segments <+: (target.withPlaceholder n).segments := by
  intro parts
  rw [apply] at h
  refine ⟨parts_splitParts splitter _, ?_, ?_⟩
  · intro i part there
    exact resolve_writeAll_of_pairwise h (numbered_apart placed parts) _ (mem_numbered there)
  · intro m n differ
    have apart := Path.apart_withPlaceholder placed differ
    exact ⟨fun same => differ (Path.withPlaceholder_inj placed same), apart.not_below⟩

/-- The targets go through an item of a sequence, and their key has two places for the number, with
digits around them. One of the targets is taken before. -/
theorem split_keeps_parts_in_item :
    let target : Path := ⟨[.field "l", .index 0, .field "1{}1{}"]⟩
    let source : Record := .object [("t", .string "x,,y")]
    let out := Output.start (.object [("l", .array [.object [("1212", .null)]])])
    (∃ s ∈ target.segments, s.HasPlaceholder) ∧
      ∃ out', (split target "," ⟨[.field "t"]⟩).apply source out = .ok out' ∧
        (target.withPlaceholder 1).resolve out'.record = some (.string "x") ∧
        (target.withPlaceholder 2).resolve out'.record = some (.string "") ∧
        (target.withPlaceholder 3).resolve out'.record = some (.string "y") ∧
        target.withPlaceholder 1 ≠ target.withPlaceholder 11 := by
  intro target source out
  have placed : ∃ s ∈ target.segments, s.HasPlaceholder :=
    ⟨.field "1{}1{}", by simp [target], ⟨['1'], ['1', '\x7b', '\x7d'], rfl⟩⟩
  obtain ⟨out', done⟩ : ∃ out', (split target "," ⟨[.field "t"]⟩).apply source out = .ok out' :=
    ⟨_, rfl⟩
  obtain ⟨-, stay, differ⟩ := split_keeps_parts placed done
  exact ⟨placed, out', done, stay 0 _ rfl, stay 1 _ rfl, stay 2 _ rfl, (differ 1 11 (by decide)).1⟩

/-! ## Joining -/

/-- A join of texts writes the joined text. -/
theorem join_writes {wide joined : Record} {place : Path} {joiner : String} {paths : List Path}
    {parts : List String}
    (texts : paths.map (·.resolve wide) = parts.map fun part => some (.string part))
    (written : place.write Record.empty (.string (Text.joinStrings joiner parts)) = .ok joined) :
    (join place joiner paths).evaluate wide = .ok joined := by
  rw [evaluate, apply, joinParts_texts texts, Output.write, start, written]

/-- Splitting a nonempty text at a nonempty splitter gives at least one part, none of which holds
the splitter; the parts are written to the numbered targets, all of them stay, and joining these
targets by the splitter writes exactly the text. -/
theorem join_of_split {origin place : Path} {splitter x : String}
    (found : origin.resolve source = some (.string x)) (text : x ≠ "") (separator : splitter ≠ "")
    (keys : OnlyKeys target.segments) (placed : ∃ s ∈ target.segments, s.HasPlaceholder)
    (keyed : place.Keyed) :
    ∃ (parts : List String) (wide joined : Record), parts ≠ [] ∧
      (∀ part ∈ parts, ¬ splitter.toList <:+: part.toList) ∧
      (split target splitter origin).apply source (.start .empty) =
        .ok ⟨wide, target.numberedUpTo parts.length⟩ ∧
      (split target splitter origin).evaluate source = .ok wide ∧
      (target.numberedUpTo parts.length).map (·.resolve wide) =
        parts.map (fun part => some (.string part)) ∧
      (join place splitter (target.numberedUpTo parts.length)).evaluate wide = .ok joined ∧
      place.write Record.empty (.string x) = .ok joined ∧
      place.resolve joined = some (.string x) := by
  have numbered : target.Keyed := by
    obtain ⟨s, member, -⟩ := placed
    exact ⟨List.ne_nil_of_mem member, keys⟩
  have split_parts : splitParts splitter (origin.resolve source) =
      (textParts splitter x).map .string := by
    have full : x.isEmpty = false := by simpa using text
    rw [found, splitParts, full]
    rfl
  obtain ⟨wide, done, there⟩ := split_writes splitter origin numbered placed split_parts
  rw [List.length_map] at done there
  rw [List.map_map] at there
  obtain ⟨joined, written⟩ : ∃ joined, place.write Record.empty (.string x) = .ok joined := by
    have possible := (isSome_put_iff (.string x)).mpr (keyed.2.hasPositions Record.empty)
    obtain ⟨joined, put⟩ := Option.isSome_iff_exists.mp possible
    exact ⟨joined, Path.write_eq_ok_iff.mpr ⟨keyed.1, put⟩⟩
  refine ⟨textParts splitter x, wide, joined, textParts_ne_nil separator x,
    fun _ => not_infix_of_mem_textParts separator, done, ?_, there, ?_, written,
    resolve_put (Path.write_eq_ok_iff.mp written).2⟩
  · rw [evaluate, done]
  · exact join_writes there (by rw [joinStrings_textParts separator, written])

/-- The splitter occurs twice in the first three letters, and only its first occurrence counts; the
parts at both ends are empty. -/
theorem join_of_split_overlapping :
    ∃ (parts : List String) (wide joined : Record), parts ≠ [] ∧
      (∀ part ∈ parts, ¬ "aa".toList <:+: part.toList) ∧
      (split ⟨[.field "p", .field "n{}"]⟩ "aa" ⟨[.field "t"]⟩).apply
          (.object [("t", .string "aaabaa")]) (.start .empty) =
        .ok ⟨wide, Path.numberedUpTo ⟨[.field "p", .field "n{}"]⟩ parts.length⟩ ∧
      (split ⟨[.field "p", .field "n{}"]⟩ "aa" ⟨[.field "t"]⟩).evaluate
          (.object [("t", .string "aaabaa")]) = .ok wide ∧
      (Path.numberedUpTo ⟨[.field "p", .field "n{}"]⟩ parts.length).map (·.resolve wide) =
        parts.map (fun part => some (.string part)) ∧
      (join ⟨[.field "o"]⟩ "aa"
          (Path.numberedUpTo ⟨[.field "p", .field "n{}"]⟩ parts.length)).evaluate wide =
        .ok joined ∧
      Path.write ⟨[.field "o"]⟩ Record.empty (.string "aaabaa") = .ok joined ∧
      Path.resolve ⟨[.field "o"]⟩ joined = some (.string "aaabaa") :=
  join_of_split rfl (by decide) (by decide) (by simp [OnlyKeys, Segment.isField])
    ⟨.field "n{}", by decide, ⟨['n'], [], rfl⟩⟩
    ⟨by decide, by simp [OnlyKeys, Segment.isField]⟩

end Transform
end RecordFlow
