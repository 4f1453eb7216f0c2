import RecordFlow.Proofs.Path.Spelling
import RecordFlow.Proofs.Value.Shape
import RecordFlow.Transform.Expression

/-!
# Values that spell a transform

A transform is spelled by an array of its tag and its operands or children, and a parallel with
children also by the bare list of them. Paths are dotted text or lists, and custom functions are
named as the registry names them. A value is read as exactly the transform that it spells, and one
that spells none is refused with an expression error, wherever in it the fault lies.
-/
namespace RecordFlow

namespace Transform

variable {registry : Registry}

/-- The ways to write a transform as a value, given the entries of the custom functions. -/
inductive Spelling (registry : Registry) : Value → Transform → Prop
  | copy {a b : Value} {target source : Path} : Path.Spelling a target → Path.Spelling b source →
      Spelling registry (.array [.string "copy", a, b]) (copy target source)
  | constant {a : Value} {target : Path} (v : Value) : Path.Spelling a target →
      Spelling registry (.array [.string "static", a, v]) (constant target v)
  | fill {a : Value} {target : Path} (v : Value) : Path.Spelling a target →
      Spelling registry (.array [.string "fill", a, v]) (fill target v)
  | join {a : Value} {target : Path} (joiner : String) {vs : List Value} {sources : List Path} :
      Path.Spelling a target → List.Forall₂ Path.Spelling vs sources → sources ≠ [] →
      Spelling registry (.array (.string "join" :: a :: .string joiner :: vs))
        (join target joiner sources)
  | split {a b : Value} {target source : Path} (splitter : String) : Path.Spelling a target →
      Path.Spelling b source →
      Spelling registry (.array [.string "split", a, .string splitter, b])
        (split target splitter source)
  | combine {a : Value} {target : Path} {vs : List Value} {sources : List Path} :
      Path.Spelling a target → List.Forall₂ Path.Spelling vs sources → sources ≠ [] →
      Spelling registry (.array (.string "combine" :: a :: vs)) (combine target sources)
  | custom {a : Value} {target : Path} {name : String} {run : Record → Except Error Value} :
      Path.Spelling a target → registry.functions.lookup name = some run →
      Spelling registry (.array [.string "custom", a, .string name]) (custom target ⟨name, run⟩)
  | parallel {vs : List Value} {children : List Transform} :
      List.Forall₂ (Spelling registry) vs children →
      Spelling registry (.array (.string "parallel" :: vs)) (parallel children)
  | sequence {vs : List Value} {children : List Transform} :
      List.Forall₂ (Spelling registry) vs children →
      Spelling registry (.array (.string "sequence" :: vs)) (sequence children)
  | bare {items vs : List Value} {children : List Transform} :
      List.Forall₂ (Spelling registry) (.array items :: vs) children →
      Spelling registry (.array (.array items :: vs)) (parallel children)

/-! ## Reading one array -/

theorem ofValue_tagged (parts : List Value) :
    ofValue registry (.array (.string "parallel" :: parts)) =
      (ofValues registry parts).map parallel := by
  rw [ofValue.eq_def]
  rfl

theorem ofValue_inOrder (parts : List Value) :
    ofValue registry (.array (.string "sequence" :: parts)) =
      (ofValues registry parts).map sequence := by
  rw [ofValue.eq_def]
  rfl

theorem ofValue_bare (first parts : List Value) :
    ofValue registry (.array (.array first :: parts)) =
      (ofValues registry (.array first :: parts)).map parallel := by
  rw [ofValue.eq_def]

theorem ofValue_leafTag {tag : String} (notParallel : tag ≠ "parallel")
    (notSequence : tag ≠ "sequence") (operands : List Value) :
    ofValue registry (.array (.string tag :: operands)) = leafOf registry tag operands := by
  rw [ofValue.eq_def]
  dsimp only
  rw [if_neg notParallel, if_neg notSequence]

/-! ## What is read is spelled -/

theorem reads_pathOf (tag : String) (v : Value) : Reads (Path.Spelling v) (pathOf tag v) := by
  rw [pathOf]
  cases read : Path.ofValue v with
  | ok p => exact .read (Path.ofValue_eq_ok_iff.mp read)
  | error e => exact .refused _

theorem reads_pathsOf (tag : String) (vs : List Value) :
    Reads (List.Forall₂ Path.Spelling vs) (pathsOf tag vs) :=
  .all (pathOf tag) (pathsOf tag) rfl (fun _ _ => rfl) fun v _ => reads_pathOf tag v

theorem reads_stringOf (tag what : String) (v : Value) :
    Reads (fun text => v = .string text) (stringOf tag what v) := by
  cases v with
  | string text => exact .read rfl
  | _ => exact .refused _

/-- A name that was not registered is refused. -/
theorem reads_get (name : String) :
    Reads (fun function => function.name = name ∧
      registry.functions.lookup name = some function.run) (registry.get name) := by
  rw [Registry.get]
  cases found : registry.find? name with
  | some function => exact .read (Registry.find?_eq_some_iff.mp found)
  | none => exact .refused _

theorem sources_ne_nil {v : Value} {vs : List Value} {sources : List Path}
    (h : List.Forall₂ Path.Spelling (v :: vs) sources) : sources ≠ [] := by
  rintro rfl
  cases h

theorem reads_leafOf (tag : String) (operands : List Value) :
    Reads (Spelling registry (.array (.string tag :: operands)))
      (leafOf registry tag operands) := by
  unfold leafOf
  split_ifs with copies constants fills joins splits combines customs
  · subst copies
    split
    · next a b =>
      apply (reads_pathOf _ a).andThen
      intro target spelled
      apply (reads_pathOf _ b).andThen
      intro source spelled'
      exact .read (.copy spelled spelled')
    · exact .refused _
  · subst constants
    split
    · next a v =>
      apply (reads_pathOf _ a).andThen
      intro target spelled
      exact .read (.constant v spelled)
    · exact .refused _
  · subst fills
    split
    · next a v =>
      apply (reads_pathOf _ a).andThen
      intro target spelled
      exact .read (.fill v spelled)
    · exact .refused _
  · subst joins
    split
    · next a b first rest =>
      apply (reads_pathOf _ a).andThen
      intro target spelled
      apply (reads_stringOf _ _ b).andThen
      rintro joiner rfl
      apply (reads_pathsOf _ (first :: rest)).andThen
      intro sources each
      exact .read (.join joiner spelled each (sources_ne_nil each))
    · exact .refused _
  · subst splits
    split
    · next a b c =>
      apply (reads_pathOf _ a).andThen
      intro target spelled
      apply (reads_stringOf _ _ b).andThen
      rintro splitter rfl
      apply (reads_pathOf _ c).andThen
      intro source spelled'
      exact .read (.split splitter spelled spelled')
    · exact .refused _
  · subst combines
    split
    · next a first rest =>
      apply (reads_pathOf _ a).andThen
      intro target spelled
      apply (reads_pathsOf _ (first :: rest)).andThen
      intro sources each
      exact .read (.combine spelled each (sources_ne_nil each))
    · exact .refused _
  · subst customs
    split
    · next a b =>
      -- the name is looked at before the target
      apply (reads_stringOf _ _ b).andThen
      rintro name rfl
      apply (reads_pathOf _ a).andThen
      intro target spelled
      apply (reads_get name).andThen
      rintro function ⟨rfl, found⟩
      exact .read (.custom spelled found)
    · exact .refused _
  · exact .refused _

theorem reads_ofValues {vs : List Value}
    (each : ∀ v ∈ vs, Reads (Spelling registry v) (ofValue registry v)) :
    Reads (List.Forall₂ (Spelling registry) vs) (ofValues registry vs) :=
  .all (ofValue registry) (ofValues registry) rfl (fun _ _ => rfl) each

theorem reads_ofValue (v : Value) : Reads (Spelling registry v) (ofValue registry v) := by
  induction v using Value.induct with
  | array items ih =>
    cases items with
    | nil => exact .refused _
    | cons first rest =>
      obtain ⟨-, each⟩ := List.forall_mem_cons.mp ih
      cases first with
      | array inner =>
        rw [ofValue_bare]
        exact (reads_ofValues ih).map fun children spelled => .bare spelled
      | string tag =>
        by_cases together : tag = "parallel"
        · subst together
          rw [ofValue_tagged]
          exact (reads_ofValues each).map fun children spelled => .parallel spelled
        · by_cases inOrder : tag = "sequence"
          · subst inOrder
            rw [ofValue_inOrder]
            exact (reads_ofValues each).map fun children spelled => .sequence spelled
          · rw [ofValue_leafTag together inOrder]
            exact reads_leafOf tag rest
      | _ => exact .refused _
  | _ => exact .refused _

/-! ## What is spelled is read -/

theorem stringOf_string (tag what text : String) : stringOf tag what (.string text) = .ok text :=
  rfl

theorem pathOf_of_spelling {v : Value} {p : Path} (tag : String) (h : Path.Spelling v p) :
    pathOf tag v = .ok p := by
  rw [pathOf, Path.ofValue_eq_ok_iff.mpr h]

theorem pathsOf_of_spelling {vs : List Value} {ps : List Path} (tag : String)
    (h : List.Forall₂ Path.Spelling vs ps) : pathsOf tag vs = .ok ps := by
  induction h with
  | nil => rfl
  | cons spelled _ ih =>
    rw [pathsOf, pathOf_of_spelling tag spelled, ih]
    rfl

theorem ofValue_of_spelling {v : Value} {t : Transform} (h : Spelling registry v t) :
    ofValue registry v = .ok t := by
  induction h using Spelling.rec
    (motive_2 := fun vs children _ => ofValues registry vs = .ok children) with
  | copy target source =>
    rw [ofValue_leafTag (by decide) (by decide)]
    simp [leafOf, pathOf_of_spelling _ target, pathOf_of_spelling _ source, bind, Except.bind,
      pure, Except.pure]
  | constant v target =>
    rw [ofValue_leafTag (by decide) (by decide)]
    simp [leafOf, pathOf_of_spelling _ target, bind, Except.bind, pure, Except.pure]
  | fill v target =>
    rw [ofValue_leafTag (by decide) (by decide)]
    simp [leafOf, pathOf_of_spelling _ target, bind, Except.bind, pure, Except.pure]
  | join joiner target sources some_source =>
    cases sources with
    | nil => exact absurd rfl some_source
    | cons first rest =>
      have read := pathsOf_of_spelling "join" (.cons first rest)
      rw [ofValue_leafTag (by decide) (by decide)]
      simp [leafOf, pathOf_of_spelling _ target, stringOf_string, read, bind, Except.bind, pure,
        Except.pure]
  | split splitter target source =>
    rw [ofValue_leafTag (by decide) (by decide)]
    simp [leafOf, pathOf_of_spelling _ target, pathOf_of_spelling _ source, stringOf_string, bind,
      Except.bind, pure, Except.pure]
  | combine target sources some_source =>
    cases sources with
    | nil => exact absurd rfl some_source
    | cons first rest =>
      have read := pathsOf_of_spelling "combine" (.cons first rest)
      rw [ofValue_leafTag (by decide) (by decide)]
      simp [leafOf, pathOf_of_spelling _ target, read, bind, Except.bind, pure, Except.pure]
  | @custom a target name run spelled found =>
    have known : registry.get name = .ok ⟨name, run⟩ :=
      Registry.get_eq_ok_iff.mpr (Registry.find?_eq_some_iff.mpr ⟨rfl, found⟩)
    rw [ofValue_leafTag (by decide) (by decide)]
    simp [leafOf, pathOf_of_spelling _ spelled, stringOf_string, known, bind, Except.bind, pure,
      Except.pure]
  | parallel _ ih =>
    rw [ofValue_tagged, ih]
    rfl
  | sequence _ ih =>
    rw [ofValue_inOrder, ih]
    rfl
  | bare _ ih =>
    rw [ofValue_bare, ih]
    rfl
  | nil => rfl
  | cons _ _ ih later =>
    rw [ofValues, ih, later]
    rfl

/-- A value is read as the transform that it spells, and if it spells none, the reading is refused
with an expression error. -/
theorem transform_iff_spelled (registry : Registry) (v : Value) :
    (∀ t, ofValue registry v = .ok t ↔ Spelling registry v t) ∧
    ((∃ m, ofValue registry v = .error (.expression m)) ↔ ∀ t, ¬ Spelling registry v t) :=
  (reads_ofValue v).exact_of_complete fun _ spelled => ofValue_of_spelling spelled

/-- A name that was registered twice is read as the later function, beside one that keeps its own. A
bare list is refused for one name in it that was not registered. -/
theorem transform_iff_spelled_registered :
    let first : Record → Except Error Value := fun _ => .ok .null
    let later : Record → Except Error Value := fun _ => .ok (.bool true)
    let registry :=
      ((Registry.empty.register "size" first).register "other" first).register "size" later
    let call (name : String) : Value :=
      .array [.string "custom", .array [.string "n"], .string name]
    let read (name : String) (run : Record → Except Error Value) : Transform :=
      custom ⟨[.field "n"]⟩ ⟨name, run⟩
    ofValue registry (.array [call "size", call "other"]) =
      .ok (parallel [read "size" later, read "other" first]) ∧
    ∃ m, ofValue registry (.array [call "size", call "sizes"]) = .error (.expression m) := by
  intro first later registry call read
  have known (asked : String) : registry.functions.lookup asked =
      if asked = "size" then some later else if asked = "other" then some first else
        if asked = "size" then some first else none := by
    rw [Registry.lookup_register, Registry.lookup_register, Registry.lookup_register]
    rfl
  constructor
  · apply ((transform_iff_spelled registry _).1 _).mpr
    exact .bare (.cons (.custom (.list [.field "n"]) (known "size"))
      (.cons (.custom (.list [.field "n"]) (known "other")) .nil))
  · apply (transform_iff_spelled registry _).2.mpr
    intro t spelled
    cases spelled with
    | bare children =>
      cases children with
      | cons _ rest =>
        cases rest with
        | cons unknown _ =>
          generalize asked : call "sizes" = v at unknown
          cases unknown with
          | custom _ found =>
            cases asked
            cases (known "sizes").symm.trans found
          | _ => simp [call] at asked

end Transform
end RecordFlow
