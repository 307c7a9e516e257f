import QueryEngine.Proofs.Execution.Without

/-!
# Fields that are resolved alike

Two executions can differ in the world that their resolvers read. A field that is resolved to the
same in both worlds has the same piece in both (`ofField_congr`), and so has an object whose fields
are all resolved alike (`ofFrame_congr`). If only one field of an object is not, the pieces of the
object are the same without the slot of that field (`without_ofFrame`).
-/

namespace QueryEngine.Execution

open Moment

variable {W O C T : Type}

/-- The markers that a field is resolved to make the same tasks in both worlds. -/
def DefersAlike (setting : Setting W O C T) (v w : W) (descriptor : Descriptor W O C T) : Prop :=
  ∀ marker resolver arguments, setting.registry.lazyResolver descriptor marker = .ok resolver →
    (resolver marker arguments v).1 = (resolver marker arguments w).1

/-- A field of an object is resolved to the same in both worlds. -/
def ResolvesAlike (setting : Setting W O C T) (v w : W) (frame : Frame W O C T)
    (child : Node (Definition W O C T)) : Prop :=
  ∀ definition, child.definition? = some definition →
    let arguments := definition.descriptor.coerceArguments child.arguments setting.vars
    outcomeOf setting v frame.source definition.descriptor arguments
        = outcomeOf setting w frame.source definition.descriptor arguments
      ∧ DefersAlike setting v w definition.descriptor

section
variable {setting : Setting W O C T} {root : Node (Definition W O C T)} {v w : W}
  (hv : SideEffectFree setting root v) (hw : SideEffectFree setting root w)

namespace Piece

/-- A single value has the same piece in both worlds if its markers make the same tasks. -/
theorem ofSingle_congr {invocation : Invocation W O C T}
    (hd : DefersAlike setting v w invocation.descriptor) (type : TypeRef) (path : Path)
    (value : FieldValue O C T) :
    (ofSingle setting invocation type path value v).1
      = (ofSingle setting invocation type path value w).1 := by
  cases value with
  | lazy | list => rfl
  | deferred marker =>
    simp only [ofSingle]
    cases hr : setting.registry.lazyResolver invocation.descriptor marker with
    | error error => rfl
    | ok resolver => simp only [hd marker resolver _ hr]
  | value json =>
    cases json with
    | array | object =>
      simp only [ofSingle]
      split <;> rfl
    | null | bool | number | string => rfl
  | object | collection =>
    simp only [ofSingle]
    split <;> rfl

include hv hw

/-- A value has the same piece in both worlds if its markers make the same tasks. -/
theorem ofValue_congr {invocation : Invocation W O C T}
    (hkv : invocation.descriptor.Keeps v) (hkw : invocation.descriptor.Keeps w)
    (hd : DefersAlike setting v w invocation.descriptor) (type : TypeRef) (path : Path)
    (value : FieldValue O C T) :
    (ofValue setting invocation type path value v).1
      = (ofValue setting invocation type path value w).1 := by
  induction type generalizing path value with
  | named name | nonNullNamed name => exact ofSingle_congr hd ..
  | list item ih | nonNullList item ih =>
    simp only [ofValue]
    cases listItems? setting.host value with
    | none => exact ofSingle_congr hd ..
    | some items =>
      simp only [ofItems_eq (ofValue_snd hv hkv item), ofItems_eq (ofValue_snd hw hkw item), ih]

variable {frame : Frame W O C T}

/-- A field that is resolved alike has the same piece in both worlds. -/
theorem ofField_congr {child : Node (Definition W O C T)} (hc : Node.Within root child)
    (hp : pageOf setting v frame.source = pageOf setting w frame.source)
    (ha : ResolvesAlike setting v w frame child) :
    ofField setting v frame child = ofField setting w frame child := by
  simp only [ofField]
  split
  · rfl
  · cases hdef : child.definition? with
    | none => rfl
    | some definition =>
      obtain ⟨houtcome, hdefers⟩ := ha definition hdef
      have hmem := List.mem_of_mem_head? hdef
      have hfails : ∀ error, failsObject setting v frame.source error
          = failsObject setting w frame.source error := by
        intro error
        simp only [failsObject, hp]
      simp only [houtcome]
      split
      · rw [ofValue_congr hv hw]
        · exact hv.descriptors child hc definition hmem
        · exact hw.descriptors child hc definition hmem
        · exact hdefers
      · rw [hfails]

variable (hsv : frame.source.Keeps v) (hsw : frame.source.Keeps w)
include hsv hsw

/-- Fields that have the same pieces in both worlds have them also one after the other. -/
theorem fieldParts_congr {children : List (Node (Definition W O C T))}
    (hc : ∀ child ∈ children, Node.Within root child)
    (he : ∀ child ∈ children, ofField setting v frame child = ofField setting w frame child)
    {a b : Option (Page O)} (ha : Known (pageOf setting v frame.source) a)
    (hb : Known (pageOf setting w frame.source) b) :
    (fieldParts setting frame children a v).1 = (fieldParts setting frame children b w).1
      ∧ (fieldParts setting frame children a v).2.1
        = (fieldParts setting frame children b w).2.1 := by
  induction children generalizing a b with
  | nil => exact ⟨rfl, rfl⟩
  | cons child rest ih =>
    obtain ⟨a', hpa, ha'⟩ := fieldPart_eq hv hsv (hc child (List.mem_cons_self ..)) ha
    obtain ⟨b', hpb, hb'⟩ := fieldPart_eq hw hsw (hc child (List.mem_cons_self ..)) hb
    rw [fieldParts, fieldParts, hpa, hpb, ← he child (List.mem_cons_self ..)]
    cases ofField setting v frame child with
    | error error => exact ⟨rfl, rfl⟩
    | ok piece =>
      obtain ⟨hparts, hfailure⟩ := ih (fun other ho => hc other (List.mem_cons_of_mem _ ho))
        (fun other ho => he other (List.mem_cons_of_mem _ ho)) ha' hb'
      exact ⟨by simp only [hparts], hfailure⟩

/-- An object whose fields have the same pieces in both worlds has the same piece. -/
theorem ofFrame_congr (hin : Node.Within root frame.node)
    (he : ∀ child ∈ included setting frame,
      ofField setting v frame child = ofField setting w frame child) :
    (ofFrame setting frame v).1 = (ofFrame setting frame w).1 := by
  obtain ⟨hparts, hfailure⟩ := fieldParts_congr hv hw hsv hsw
    (fun _ hc => within_of_mem_included hin hc) he (.inl rfl) (.inl rfl)
  simp only [ofFrame, hparts, hfailure]

omit hv hw hsv hsw

/-! ## One field that is not resolved alike -/

/-- The same parts but for what stands under one step, where all that is left lies within that
slot. -/
def AlikeBut (path : Path) (step : Segment) (a b : Segment × Piece W O C T) : Prop :=
  a.1 = b.1 ∧ (a.2 = b.2 ∨ a.1 = step ∧ a.2.Inside (path ++ [step]) ∧ b.2.Inside (path ++ [step]))

/-- What stands under the step lies within the slot, so only equal parts have something left. -/
theorem AlikeBut.left {path : Path} {step : Segment} {a b : Segment × Piece W O C T}
    (h : AlikeBut path step a b) :
    (a.2.without (path ++ [step]) path).errors = (b.2.without (path ++ [step]) path).errors
      ∧ (a.2.without (path ++ [step]) path).frames = (b.2.without (path ++ [step]) path).frames
      ∧ (a.2.without (path ++ [step]) path).pending
        = (b.2.without (path ++ [step]) path).pending := by
  obtain ⟨-, he | ⟨-, hina, hinb⟩⟩ := h
  · rw [he]
    exact ⟨rfl, rfl, rfl⟩
  · obtain ⟨ha1, ha2, ha3⟩ := hina.without (List.prefix_refl _)
    obtain ⟨hb1, hb2, hb3⟩ := hinb.without (List.prefix_refl _)
    exact ⟨ha1.trans hb1.symm, ha2.trans hb2.symm, ha3.trans hb3.symm⟩

/-- Functions that agree on related values make one list of related lists. -/
theorem map_congr_of_forall₂ {α β γ : Type} {R : α → β → Prop} {f : α → γ} {g : β → γ}
    {as : List α} {bs : List β} (h : List.Forall₂ R as bs) (hf : ∀ a b, R a b → f a = g b) :
    as.map f = bs.map g := by
  induction h with
  | nil => rfl
  | cons hab _ ih => rw [List.map_cons, List.map_cons, hf _ _ hab, ih]

/-- Parts that are the same but for one slot are put together to the same without that slot. -/
theorem without_gather_congr {path : Path} {step : Segment}
    {parts others : List (Segment × Piece W O C T)}
    (hp : List.Forall₂ (AlikeBut path step) parts others)
    (ha : Container.object.Admits (parts.map Prod.fst)) :
    (gather .object parts).without (path ++ [step]) path
      = (gather .object others).without (path ++ [step]) path := by
  have hsteps : others.map Prod.fst = parts.map Prod.fst :=
    (map_congr_of_forall₂ hp fun _ _ hab => hab.1).symm
  have hvalue : (gather .object parts).value.fill [step] .null
      = (gather .object others).value.fill [step] .null := by
    simp only [gather]
    rw [Container.fill_build_step (by rwa [map_fst_values]),
      Container.fill_build_step (by rwa [map_fst_values, hsteps]), List.map_map, List.map_map]
    refine congrArg _ (map_congr_of_forall₂ hp ?_)
    rintro a b ⟨hs, he⟩
    simp only [Function.comp, hs]
    split
    · rfl
    · rename_i hne
      rcases he with he | ⟨he, -⟩
      · rw [he]
      · exact absurd (hs ▸ he) hne
  have hflat : ∀ {α : Type} (f : Piece W O C T → List α),
      (∀ a b, AlikeBut path step a b → f a.2 = f b.2) →
        parts.flatMap (fun part => f part.2) = others.flatMap fun part => f part.2 := by
    intro α f hf
    rw [List.flatMap_def, List.flatMap_def, map_congr_of_forall₂ hp hf]
  simp only [without, Json.blank, if_pos (List.prefix_append path [step]), List.drop_left, hvalue]
  simp only [gather, List.filter_flatMap, mk.injEq, true_and]
  exact ⟨hflat (fun piece => (piece.without _ path).errors) fun _ _ hab => hab.left.1,
    hflat (fun piece => (piece.without _ path).frames) fun _ _ hab => hab.left.2.1,
    hflat (fun piece => (piece.without _ path).pending) fun _ _ hab => hab.left.2.2⟩

/-- The parts of an object that is no connection: one for each of its fields, whatever it is
resolved to. -/
theorem parts_of_object {world : W} (h : SideEffectFree setting root world)
    (hin : Node.Within root frame.node) {object : Object O} (hs : frame.source = .object object) :
    ∃ parts, (ofFrame setting frame world).1 = gather .object parts
      ∧ List.Forall₂ (fun child part => part.1 = .key child.key
        ∧ ofField setting world frame child = .ok part.2) (included setting frame) parts
      ∧ ∀ part ∈ parts, part.2.Inside (frame.path ++ [part.1]) := by
  have hkeeps : frame.source.Keeps world := by
    rw [hs]
    exact Source.keeps_object (C := C) world object
  have hnone : (included setting frame).findSome? (failure? setting world frame) = none := by
    refine List.findSome?_eq_none_iff.2 fun child _ => ?_
    cases hf : ofField setting world frame child with
    | ok piece => simp [failure?, hf]
    | error error =>
      revert hf
      simp only [ofField, failsObject, hs]
      split
      · rintro ⟨⟩
      · split
        · rintro ⟨⟩
        · split <;> rintro ⟨⟩
  have hin : ∀ child ∈ included setting frame, Node.Within root child :=
    fun _ hc => within_of_mem_included hin hc
  obtain ⟨parts, he, -, hall⟩ := fieldParts_eq h hkeeps hin (.inl rfl)
  refine ⟨parts, by simp [ofFrame, he, hnone, close], hall hnone, ?_⟩
  intro part hp
  have hmem : part ∈ (fieldParts setting frame (included setting frame) none world).1 := by
    rwa [he]
  obtain ⟨child, -, -, hfits⟩ := fits_of_mem_fieldParts hmem
  exact hfits.tidy.inside hfits.labelled

/-- Fields of which all but one are resolved alike have the same parts but for that one. -/
theorem forall₂_alikeBut {v w : W} {key : String} {children : List (Node (Definition W O C T))}
    (he : ∀ child ∈ children, child.key ≠ key →
      ofField setting v frame child = ofField setting w frame child)
    {parts others : List (Segment × Piece W O C T)}
    (hp : List.Forall₂ (fun child part => part.1 = .key child.key
      ∧ ofField setting v frame child = .ok part.2) children parts)
    (ho : List.Forall₂ (fun child part => part.1 = .key child.key
      ∧ ofField setting w frame child = .ok part.2) children others)
    (hi : ∀ part ∈ parts, part.2.Inside (frame.path ++ [part.1]))
    (hi' : ∀ part ∈ others, part.2.Inside (frame.path ++ [part.1])) :
    List.Forall₂ (AlikeBut frame.path (.key key)) parts others := by
  induction hp generalizing others with
  | nil =>
    cases ho
    exact .nil
  | @cons child part children parts hc _ ih =>
    obtain ⟨other, others, hc', hothers, rfl⟩ := List.forall₂_cons_left_iff.1 ho
    refine .cons ⟨hc.1.trans hc'.1.symm, ?_⟩
      (ih (fun other hm => he other (List.mem_cons_of_mem _ hm)) hothers
        (fun part hp => hi part (List.mem_cons_of_mem _ hp))
        fun part hp => hi' part (List.mem_cons_of_mem _ hp))
    by_cases hkey : child.key = key
    · right
      have hs : part.1 = .key key := hkey ▸ hc.1
      have hs' : other.1 = .key key := hkey ▸ hc'.1
      exact ⟨hs, hs ▸ hi part (List.mem_cons_self ..), hs' ▸ hi' other (List.mem_cons_self ..)⟩
    · left
      have heq := he child (List.mem_cons_self ..) hkey
      rw [hc.2, hc'.2] at heq
      exact Except.ok.inj heq

/-- An object of which all fields but one are resolved alike contributes the same without the slot
of that field. -/
theorem without_ofFrame {v w : W} (hv : SideEffectFree setting root v)
    (hw : SideEffectFree setting root w) (hin : Node.Within root frame.node)
    (hk : ((included setting frame).map Node.key).Nodup) {object : Object O}
    (hs : frame.source = .object object) {key : String}
    (he : ∀ child ∈ included setting frame, child.key ≠ key →
      ofField setting v frame child = ofField setting w frame child) :
    (ofFrame setting frame v).1.without (frame.path ++ [.key key]) frame.path
      = (ofFrame setting frame w).1.without (frame.path ++ [.key key]) frame.path := by
  obtain ⟨parts, hp, hparts, hinside⟩ := parts_of_object hv hin hs
  obtain ⟨others, ho, hothers, hinside'⟩ := parts_of_object hw hin hs
  have hadmits : Container.object.Admits (parts.map Prod.fst) := by
    have hsteps : ((included setting frame).map Node.key).map Segment.key
        = parts.map Prod.fst := by
      rw [List.map_map]
      exact map_congr_of_forall₂ hparts fun child part hc => hc.1.symm
    exact hsteps ▸ Container.admits_object hk
  rw [hp, ho]
  refine without_gather_congr ?_ hadmits
  exact forall₂_alikeBut he hparts hothers hinside hinside'

end Piece

end

end QueryEngine.Execution
