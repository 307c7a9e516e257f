import QueryEngine.Proofs.Execution.Alike

/-!
# Fields are isolated from each other

What one field of an object that is no connection is resolved to changes nothing outside its slot:
two executions that differ in that only have the same data but for the slot, and the same errors in
the same order but for those within the slot (`execute_isolates`). The two executions may take
different numbers of drain steps. Without the slot, however, each of their moves either changes
nothing or does what the other execution does next (`Advances.unique`), so both come to the same end
(`without_eq_of_reaches`).
-/

namespace QueryEngine.Execution

open Moment

variable {W O C T : Type}

/-- Two worlds differ, for the execution that starts in the first one, in nothing but what the field
in a slot of an object that is no connection is resolved to. Whatever lies within that slot may be
different as well. -/
structure DifferOnlyAt (setting : Setting W O C T) (tree : SelectionTree (Definition W O C T))
    (root : O) (v w : W) (slot : Path) : Prop where
  holder : ∀ {past m frame key}, Reaches setting (.start root tree v) past m →
    Resolves m frame → slot = frame.path ++ [.key key] → ∃ object, frame.source = .object object
  /-- A connection around the slot or beside it has the same page. -/
  pages : ∀ {past m frame}, Reaches setting (.start root tree v) past m →
    Resolves m frame → ¬ slot <+: frame.path →
      pageOf setting v frame.source = pageOf setting w frame.source
  fields : ∀ {past m frame child}, Reaches setting (.start root tree v) past m →
    Resolves m frame → ¬ slot <+: frame.path → child ∈ Piece.included setting frame →
      frame.path ++ [.key child.key] ≠ slot → ResolvesAlike setting v w frame child
  /-- A task has one outcome, and so have the markers in its outcome. -/
  tasks : ∀ {past m pending}, Reaches setting (.start root tree v) past m →
    pending ∈ m.waiting → ¬ slot <+: pending.path →
      DefersAlike setting v w pending.invocation.descriptor
        ∧ ∀ {fuel more outcome other},
          Polling.await setting.host.poll v fuel pending.task = some outcome →
          Polling.await setting.host.poll w more pending.task = some other → outcome = other

/-- Two values are the same outside a slot. -/
structure SameOutside (slot : Path) (a b : Json) : Prop where
  blanked : a.fill slot .null = b.fill slot .null
  apart : ∀ path, Path.Apart slot path → a.at? path = b.at? path
  around : ∀ path rest, slot = path ++ rest →
    (a.at? path).map (·.fill rest .null) = (b.at? path).map (·.fill rest .null)

/-- Values that become the same when one slot is null agree outside that slot. -/
theorem sameOutside_of_fill_eq {slot : Path} {a b : Json}
    (h : a.fill slot .null = b.fill slot .null) : SameOutside slot a b where
  blanked := h
  apart path hp := by
    rw [← Json.at?_fill_of_apart hp a .null, h, Json.at?_fill_of_apart hp]
  around path rest he := by
    rw [← Json.at?_fill_above, ← Json.at?_fill_above, ← he, h]

/-- The first move on the way to a moment. -/
theorem Reaches.first {setting : Setting W O C T} {start m : Moment W O C T}
    {past : List (Moment W O C T)} (h : Reaches setting start past m) :
    start = m ∨ ∃ next later, Move setting start next ∧ Reaches setting next later m
      ∧ later.length < past.length := by
  induction h with
  | start => exact .inl rfl
  | @move past m m' hr hm ih =>
    right
    rcases ih with rfl | ⟨next, later, hfirst, hlater, hlen⟩
    · exact ⟨m', [], hm, .start, by simp⟩
    · exact ⟨next, m :: later, hfirst, hlater.move hm, by simpa using hlen⟩

/-- Two lists that come from one list by relations that agree are the same. -/
theorem forall₂_unique {α β : Type} {R S : α → β → Prop} {values : List α} {as bs : List β}
    (h : ∀ value ∈ values, ∀ a b, R value a → S value b → a = b)
    (ha : List.Forall₂ R values as) (hb : List.Forall₂ S values bs) : as = bs := by
  induction ha generalizing bs with
  | nil =>
    cases hb
    rfl
  | cons hr _ ih =>
    cases hb with
    | cons hs hb =>
      rw [h _ (List.mem_cons_self ..) _ _ hr hs,
        ih (fun value hv => h value (List.mem_cons_of_mem _ hv)) hb]

/-- Where nothing is left to do, nothing advances. -/
theorem not_advances {setting : Setting W O C T} {world : W} {slot : Path}
    {q q' : Moment W O C T} (h : q.works = []) : ¬ Advances setting world slot q q' := by
  rintro (⟨hn, -⟩ | ⟨hn, -⟩ | ⟨hn, hp, -⟩)
  · rw [works_next hn] at h
    cases h
  · rw [works_next hn] at h
    cases h
  · rw [works_of_next?_eq_none hn, List.map_eq_nil_iff] at h
    exact hp h

section
variable {setting : Setting W O C T} {tree : SelectionTree (Definition W O C T)} {root : O}
  {v w : W} {slot : Path} (hk : tree.root.KeysDistinct)
  (hv : SideEffectFree setting tree.root v) (hw : SideEffectFree setting tree.root w)
  (hcv : setting.host.cancelled v = false) (hcw : setting.host.cancelled w = false)
  (hd : DifferOnlyAt setting tree root v w slot)
  {past before : List (Moment W O C T)} {a b : Moment W O C T}
  (ha : Reaches setting (.start root tree v) past a)
  (hb : Reaches setting (.start root tree w) before b)
include hk hv hw hd ha

/-- The piece of an object outside the slot is the same in both worlds but for the slot. -/
theorem without_ofFrame_of_differ {frame : Frame W O C T} (hr : Resolves a frame)
    (hp : ¬ slot <+: frame.path) (hin : Node.Within tree.root frame.node)
    (hsv : frame.source.Keeps v) (hsw : frame.source.Keeps w) :
    (Piece.ofFrame setting frame v).1.without slot frame.path
      = (Piece.ofFrame setting frame w).1.without slot frame.path := by
  have hfield : ∀ child ∈ Piece.included setting frame, frame.path ++ [.key child.key] ≠ slot →
      Piece.ofField setting v frame child = Piece.ofField setting w frame child :=
    fun child hc hne => Piece.ofField_congr hv hw (within_of_mem_included hin hc)
      (hd.pages ha hr hp) (hd.fields ha hr hp hc hne)
  by_cases hholder : ∃ key, slot = frame.path ++ [.key key]
  · obtain ⟨key, rfl⟩ := hholder
    obtain ⟨object, hs⟩ := hd.holder ha hr rfl
    refine Piece.without_ofFrame hv hw hin (included_nodup hk hin) hs ?_
    intro child hc hne
    exact hfield child hc (by simpa using hne)
  · rw [Piece.ofFrame_congr hv hw hsv hsw hin fun child hc =>
      hfield child hc fun he => hholder ⟨_, he.symm⟩]

include hcv hcw hb

/-- The piece of the next work outside the slot is the same in both worlds but for the slot. -/
theorem without_piece {work : Work W O C T} {rest left : Moment W O C T}
    (hn : a.next? = some (work, rest)) (hn' : b.next? = some (work, left))
    (hs : (a.state.data.at? work.path).isSome) (hp : ¬ slot <+: work.path) :
    (work.piece setting v).1.without slot work.path
      = (work.piece setting w).1.without slot work.path := by
  have hin := (ha.sound hk).within work (mem_works_next hn)
  have hkv := (ha.quiet hk hv hcv).keeps work (mem_works_next hn)
  have hkw := (hb.quiet hk hw hcw).keeps work (mem_works_next hn')
  cases work with
  | object frame => exact without_ofFrame_of_differ hk hv hw hd ha ⟨⟨rest, hn⟩, hs⟩ hp hin hkv hkw
  | task pending => rfl
  | outcome pending outcome =>
    have hwaiting : pending ∈ a.waiting := by
      rcases next?_eq_some hn with ⟨_, _, he, hdue, _⟩ | ⟨_, he, _⟩ <;> cases he
      simp [waiting, hdue]
    cases outcome with
    | error error => rfl
    | ok value =>
      have hvalue := Piece.ofValue_congr hv hw hkv hkw (hd.tasks ha hwaiting hp).1 pending.type
        pending.path value
      simp only [Work.piece, Piece.ofOutcome, hvalue]

/-- Both executions advance in the same way what is left of them without the slot. -/
theorem Advances.unique {base : W} (he : a.without slot base = b.without slot base)
    (hna : NextIsLeft slot base a) (hnb : NextIsLeft slot base b) {p q : Moment W O C T}
    (hp : Advances setting v slot (a.without slot base) p)
    (hq : Advances setting w slot (b.without slot base) q) : p = q := by
  cases hp with
  | skip hn hgone =>
    rw [he] at hn hgone
    cases hq with
    | skip hn' =>
      rw [hn] at hn'
      cases hn'
      rfl
    | graft hn' hlive =>
      rw [hn] at hn'
      cases hn'
      simp [hgone] at hlive
    | drain hn' => simp [hn] at hn'
  | @graft work left hn hlive =>
    obtain ⟨hout, rest, hnext⟩ := hna hn
    have hs := isSome_at?_without hout ▸ hlive
    rw [he] at hn hlive
    cases hq with
    | skip hn' hgone =>
      rw [hn] at hn'
      cases hn'
      simp [hgone] at hlive
    | graft hn' =>
      rw [hn] at hn'
      cases hn'
      obtain ⟨-, rest', hnext'⟩ := hnb hn
      rw [he, without_piece hk hv hw hcv hcw hd ha hb hnext hnext' hs hout]
    | drain hn' => simp [hn] at hn'
  | @drain fuel outcomes hn _ ho =>
    rw [he] at hn
    cases hq with
    | skip hn' | graft hn' => simp [hn] at hn'
    | @drain more others _ _ ho' =>
      have houtcomes : outcomes = others := by
        rw [← he] at ho'
        refine forall₂_unique (fun pending hp outcome other => ?_) ho ho'
        obtain ⟨hp, hout⟩ := List.mem_filter.1 hp
        exact (hd.tasks ha (List.mem_append_right _ hp) (Path.avoids_iff.1 hout)).2
      rw [he, houtcomes]

/-- From moments of which the same is left both executions come to an end of which the same is
left. -/
theorem without_eq_of_reaches {total : Nat} {base : W} {rest others : List (Moment W O C T)}
    {last final : Moment W O C T} (hlen : rest.length + others.length ≤ total)
    (he : a.without slot base = b.without slot base) (hlast : Reaches setting a rest last)
    (hfinal : Reaches setting b others final) (hl : last.works = []) (hf : final.works = []) :
    last.without slot base = final.without slot base := by
  induction total generalizing past before a b rest others with
  | zero =>
    cases hlast with
    | start =>
      cases hfinal with
      | start => exact he
      | move => simp at hlen
    | move => simp at hlen
  | succ total ih =>
    rcases hlast.first with rfl | ⟨a', rest', hma, hlast', hra⟩
    · rcases hfinal.first with rfl | ⟨b', others', hmb, hfinal', hrb⟩
      · exact he
      · rcases (hb.sound hk).advances hw hcw hk (hb.quiet hk hw hcw) slot base hmb
          with hstay | ⟨hadv, -⟩
        · exact ih ha (hb.move hmb) (by omega) (he.trans hstay.symm) hlast hfinal'
        · rw [← he] at hadv
          exact absurd hadv (not_advances (works_without_eq_nil hl))
    · rcases (ha.sound hk).advances hv hcv hk (ha.quiet hk hv hcv) slot base hma
        with hstay | ⟨hadv, hna⟩
      · exact ih (ha.move hma) hb (by omega) (hstay.trans he) hlast' hfinal
      · rcases hfinal.first with rfl | ⟨b', others', hmb, hfinal', hrb⟩
        · rw [he] at hadv
          exact absurd hadv (not_advances (works_without_eq_nil hf))
        · rcases (hb.sound hk).advances hw hcw hk (hb.quiet hk hw hcw) slot base hmb
            with hstay | ⟨hadv', hnb⟩
          · exact ih ha (hb.move hmb) (by omega) (he.trans hstay.symm) hlast hfinal'
          · refine ih (ha.move hma) (hb.move hmb) (by omega) ?_ hlast' hfinal'
            exact Advances.unique hk hv hw hcv hcw hd ha hb he hna hnb hadv hadv'

end

/-- Two executions without side effects that differ only in what one field is resolved to have the
same data outside the slot of that field, and the same errors outside it in the same order. -/
theorem execute_isolates {setting : Setting W O C T} {tree : SelectionTree (Definition W O C T)}
    (hk : tree.root.KeysDistinct) {root : O} {v w : W} {slot : Path}
    (hv : SideEffectFree setting tree.root v) (hw : SideEffectFree setting tree.root w)
    (hcv : setting.host.cancelled v = false) (hcw : setting.host.cancelled w = false)
    (hlimit : setting.registry.configuration.maxDrainSteps = none)
    (hd : DifferOnlyAt setting tree root v w slot) {fuel more : Nat} {response other : Response}
    {after after' : W} (ha : execute setting tree root fuel v = some (response, after))
    (hb : execute setting tree root more w = some (other, after')) :
    ∃ x y, response.data = some x ∧ other.data = some y ∧ SameOutside slot x y
      ∧ response.errors.filter (·.avoids slot) = other.errors.filter (·.avoids slot) := by
  obtain ⟨past, last, hreach, hdata, error, herrors, hends⟩ := execute_eq_some hk ha
  obtain ⟨before, final, hreach', hdata', error', herrors', hends'⟩ := execute_eq_some hk hb
  obtain ⟨rfl, hl⟩ := hends.works_eq_nil hv hcv hlimit (hreach.quiet hk hv hcv)
  obtain ⟨rfl, hf⟩ := hends'.works_eq_nil hw hcw hlimit (hreach'.quiet hk hw hcw)
  have hsame : last.without slot v = final.without slot v :=
    without_eq_of_reaches hk hv hw hcv hcw hd .start .start (Nat.le_refl _) rfl hreach hreach' hl hf
  have hstate := congrArg Moment.state hsame
  refine ⟨_, _, hdata, hdata', sameOutside_of_fill_eq (congrArg State.data hstate), ?_⟩
  have herr : last.state.errors.filter (·.avoids slot) = final.state.errors.filter (·.avoids slot)
      := congrArg State.errors hstate
  simpa [herrors, herrors'] using herr

/-- A resolver that fails in one world and answers with a task in the other. -/
def readingDefinition : Definition Bool Unit Unit Unit :=
  ⟨.default "Query" "name",
    { strategy := .custom fun _ _ world =>
        .done (if world then .error (.new "no name") else .ok (.lazy ())) world }⟩

/-- A field with that resolver, and one without a definition. -/
def readingTree : SelectionTree (Definition Bool Unit Unit Unit) :=
  ⟨.query, { Node.root "Query" with
    buckets := [⟨"Query",
      [{ Node.ofField ⟨0, none, "name", [], [], "Query", .named "String"⟩ false with
          definitions := [readingDefinition] },
        .ofField ⟨1, none, "other", [], [], "Query", .named "String"⟩ false]⟩] }⟩

/-- A host of tasks that are ready at once. -/
def readySetting : Setting Bool Unit Unit Unit :=
  bareSetting fun _ => .ready (.ok (.value (.string "done")))

/-- A node of the tree is the root, or a leaf with the one resolver. -/
theorem readingTree_within {node : Node (Definition Bool Unit Unit Unit)}
    (h : Node.Within readingTree.root node) :
    node = readingTree.root
      ∨ node.buckets = [] ∧ ∀ d ∈ node.definitions, d = readingDefinition := by
  induction h with
  | root => exact .inl rfl
  | child _ hc ih =>
    obtain ⟨bucket, hb, hc⟩ := hc
    rcases ih with rfl | ⟨hnil, -⟩
    · rw [List.mem_singleton.1 hb] at hc
      rcases List.mem_pair.1 hc with rfl | rfl
      · exact .inr ⟨rfl, fun d hd => List.mem_singleton.1 hd⟩
      · exact .inr ⟨rfl, fun _ h => by cases h⟩
    · rw [hnil] at hb
      cases hb

/-- No two nodes of the tree share a key in one object. -/
theorem readingTree_keysDistinct : readingTree.root.KeysDistinct := by
  intro node hw bucket hb
  rcases readingTree_within hw with rfl | ⟨hnil, -⟩
  · rw [List.mem_singleton.1 hb]
    decide
  · rw [hnil] at hb
    cases hb

/-- Reading the world does not change it. -/
theorem readingTree_sideEffectFree (world : Bool) :
    SideEffectFree readySetting readingTree.root world where
  host := bareSetting_keeps _ world
  descriptors node hw definition hd := by
    rcases readingTree_within hw with rfl | ⟨-, hdef⟩
    · cases hd
    · rw [hdef definition hd]
      exact
        { resolver := fun _ h _ _ => by cases h; rfl
          lazyResolver := nofun
          connection := nofun }
  deferred := nofun

/-- In the world where the resolver fails there is one move. -/
theorem readingTree_reaches {past : List (Moment Bool Unit Unit Unit)}
    {m : Moment Bool Unit Unit Unit}
    (h : Reaches readySetting (.start () readingTree true) past m) :
    m = .start () readingTree true ∨ m.works = [] := by
  induction h with
  | start => exact .inl rfl
  | move _ hm ih =>
    right
    rcases ih with rfl | hnil
    · cases hm with
      | work hn =>
        cases hn
        rfl
      | drain hn => cases hn
    · cases hm with
      | work hn =>
        rw [works_next hn] at hnil
        cases hnil
      | drain hn hp =>
        rw [works_of_next?_eq_none hn, List.map_eq_nil_iff] at hnil
        exact absurd hnil hp

/-- The two worlds differ in what is read for the name, and in nothing else. -/
theorem readingTree_differ :
    DifferOnlyAt readySetting readingTree () true false [.key "name"] := by
  have hroot : ∀ {past m frame}, Reaches readySetting (.start () readingTree true) past m →
      Resolves m frame →
        frame = ⟨[], .object (.host ()), readingTree.root.owner, readingTree.root⟩ := by
    rintro past m frame hr ⟨⟨rest, hn⟩, -⟩
    rcases readingTree_reaches hr with rfl | hnil
    · cases hn
      rfl
    · rw [works_next hn] at hnil
      cases hnil
  refine
    { holder := fun hr hm _ => ⟨.host (), by rw [hroot hr hm]⟩
      pages := fun hr hm _ => by rw [hroot hr hm]; rfl
      fields := ?_
      tasks := ?_ }
  · intro past m frame child hr hm _ hc hne definition hdef
    rw [hroot hr hm] at hc hne
    rcases List.mem_pair.1 hc with rfl | rfl
    · exact absurd rfl hne
    · cases hdef
  · intro past m pending hr hp
    rcases readingTree_reaches hr with rfl | hnil
    · cases hp
    · simp only [works, List.append_eq_nil_iff, List.map_eq_nil_iff] at hnil
      simp [waiting, hnil] at hp

/-- The field that has no definition has its error in both worlds. -/
theorem execute_isolates_readingTree :
    ∃ response other,
      execute readySetting readingTree () 2 true = some (response, true)
        ∧ execute readySetting readingTree () 2 false = some (other, false)
        ∧ response.data = some (.object [("name", .null), ("other", .null)])
        ∧ other.data = some (.object [("name", .string "done"), ("other", .null)])
        ∧ response.errors.length = 2
        ∧ response.errors.filter (·.avoids [.key "name"])
          = other.errors.filter (·.avoids [.key "name"]) := by
  obtain ⟨x, y, -, -, -, herrors⟩ := execute_isolates readingTree_keysDistinct
    (readingTree_sideEffectFree true) (readingTree_sideEffectFree false) rfl rfl rfl
    readingTree_differ (show execute _ _ _ 2 true = _ from rfl)
    (show execute _ _ _ 2 false = _ from rfl)
  exact ⟨_, _, rfl, rfl, rfl, rfl, rfl, herrors⟩

end QueryEngine.Execution
