import QueryEngine.Proofs.Execution.Shape
import QueryEngine.Proofs.Selection.Merge

/-!
# Responses through JSON

What `Response.toJson` leaves out, `Response.ofJson?` puts back. Data that is null is the only thing
that gets lost, and an index that does not fit 64 bits the only thing that is not read
(`Response.ofJson?_toJson_iff`). The data of an execution is an object, and an operation that cannot
be executed has none, so the answer to a request is always read back (`Response.readsBack`).
-/

namespace QueryEngine

/-! ## What fits -/

/-- An index is a number of 64 bits. -/
def Segment.Fits : Segment → Prop
  | .index i => i < Width.values 64
  | .key _ => True

/-- The indices on the path of the error fit 64 bits. -/
def ResponseError.Fits (error : ResponseError) : Prop :=
  ∀ path ∈ error.path, ∀ segment ∈ path, segment.Fits

/-- The indices on the paths of the errors fit 64 bits. -/
def Response.Fits (response : Response) : Prop :=
  ∀ error ∈ response.errors, error.Fits

/-! ## Parts of a response -/

/-- A key is read as a key and an index as an index. -/
theorem Segment.ofJson?_toJson_iff {segment : Segment} :
    ofJson? segment.toJson = some segment ↔ segment.Fits := by
  cases segment with
  | key name => exact ⟨fun _ => trivial, fun _ => rfl⟩
  | index i =>
    show (if Width.Unsigned 64 (i : Int) then some (i : Int).toNat else none).map Segment.index
      = some (.index i) ↔ i < Width.values 64
    have hfits : Width.Unsigned 64 (i : Int) ↔ i < Width.values 64 := by
      simp [Width.Unsigned]
    by_cases h : i < Width.values 64
    · rw [if_pos (hfits.2 h)]
      exact ⟨fun _ => h, fun _ => rfl⟩
    · rw [if_neg (mt hfits.1 h)]
      exact ⟨nofun, fun h' => absurd h' h⟩

/-- A path is read back from what it is written as exactly if its positions are in range. -/
theorem Path.ofJson?_toJson_iff {path : Path} :
    ofJson? (Path.toJson path) = some path ↔ ∀ segment ∈ path, segment.Fits := by
  show (path.map Segment.toJson).mapM Segment.ofJson? = some path ↔ _
  rw [mapM_eq_some_iff, List.forall₂_map_left_iff, List.forall₂_same]
  exact forall₂_congr fun _ _ => Segment.ofJson?_toJson_iff

/-- Entries that are left out because there are none are put back. -/
theorem Json.optionalObject?_unless (fields : Fields) :
    optionalObject? (if fields.isEmpty then none else some (.object fields)) = some fields := by
  cases fields <;> rfl

namespace ResponseError

/-- The parts of an error are read as the error, if its path is read. -/
theorem ofJsonParts?_eq (message : String) (path : Option Path) (extensions : Fields) :
    ofJsonParts? (some (.string message)) (path.map Path.toJson)
        (if extensions.isEmpty then none else some (.object extensions))
      = (path.elim (some none) fun path => (Path.ofJson? path.toJson).map some).map
        fun path => ⟨message, path, extensions⟩ := by
  rw [ofJsonParts?, Json.optionalObject?_unless]
  cases path with
  | none => rfl
  | some path =>
    show ((Path.ofJson? path.toJson).map some).bind _ = ((Path.ofJson? path.toJson).map some).map _
    cases Path.ofJson? path.toJson <;> rfl

/-- An error is read back if and only if its indices fit. -/
theorem ofJson?_toJson_iff {error : ResponseError} :
    ofJson? error.toJson = some error ↔ error.Fits := by
  obtain ⟨message, path, extensions⟩ := error
  have hparts : ofJson? (toJson ⟨message, path, extensions⟩)
      = (path.elim (some none) fun path => (Path.ofJson? path.toJson).map some).map
        fun path => ⟨message, path, extensions⟩ := by
    rw [← ofJsonParts?_eq]
    cases path <;> cases extensions <;> rfl
  rw [hparts]
  cases path with
  | none => exact ⟨fun _ => nofun, fun _ => rfl⟩
  | some path =>
    have hread : Path.ofJson? path.toJson = some path
        ↔ Fits ⟨message, some path, extensions⟩ := by
      simp [Path.ofJson?_toJson_iff, Fits]
    rw [← hread]
    simp

end ResponseError

namespace Response

/-- The parts of a response are read as the response without null data, if its errors are read. -/
theorem ofJsonParts?_eq (data : Option Json) (errors : List ResponseError)
    (extensions : Fields) :
    ofJsonParts? data
        (if errors.isEmpty then none else some (.array (errors.map ResponseError.toJson)))
        (if extensions.isEmpty then none else some (.object extensions))
      = ((errors.map ResponseError.toJson).mapM ResponseError.ofJson?).map
        fun errors => ⟨data.filter (! ·.isNull), errors, extensions⟩ := by
  unfold ofJsonParts?
  rw [Json.optionalObject?_unless]
  cases errors with
  | nil =>
    cases data with
    | none => rfl
    | some value => cases value <;> rfl
  | cons first rest =>
    show ((first :: rest).map ResponseError.toJson |>.mapM ResponseError.ofJson?).bind _ = _
    cases ((first :: rest).map ResponseError.toJson).mapM ResponseError.ofJson? with
    | none => rfl
    | some read =>
      cases data with
      | none => rfl
      | some value => cases value <;> rfl

/-- A response is read back if and only if its data is not null and its indices fit. -/
theorem ofJson?_toJson_iff {response : Response} :
    ofJson? response.toJson = some response ↔ response.data ≠ some .null ∧ response.Fits := by
  obtain ⟨data, errors, extensions⟩ := response
  have hparts : ofJson? (toJson ⟨data, errors, extensions⟩)
      = ((errors.map ResponseError.toJson).mapM ResponseError.ofJson?).map
        fun errors => ⟨data.filter (! ·.isNull), errors, extensions⟩ := by
    rw [← ofJsonParts?_eq]
    cases data <;> cases errors <;> cases extensions <;> rfl
  have herrors : (errors.map ResponseError.toJson).mapM ResponseError.ofJson? = some errors
      ↔ Fits ⟨data, errors, extensions⟩ := by
    rw [mapM_eq_some_iff, List.forall₂_map_left_iff, List.forall₂_same]
    exact forall₂_congr fun _ _ => ResponseError.ofJson?_toJson_iff
  have hdata : data.filter (! ·.isNull) = data ↔ data ≠ some .null := by
    cases data with
    | none => simp
    | some value => cases value <;> simp [Json.isNull]
  rw [hparts, ← herrors, ← hdata]
  simp [and_comm]

end Response

/-! ## The answers of executions -/

namespace Execution

variable {W O C T : Type} {setting : Setting W O C T} {root : O} {fuel : Nat} {world : W}
  {answer : Response × W}

/-- The data of an execution is an object. -/
theorem exists_data_of_execute {tree : SelectionTree (Definition W O C T)}
    (hk : tree.root.KeysDistinct) (h : execute setting tree root fuel world = some answer) :
    ∃ fields, answer.1.data = some (.object fields) := by
  obtain ⟨past, last, hr, hn, hd⟩ := execute_reaches hk h
  have hroot : Resolved past (rootFrame tree root) := by
    refine hr.root_resolved.resolve_left ?_
    rintro rfl
    cases hn
  rcases (hr.composed hk).kept _ hroot last.state.data (by simp [rootFrame]) with
    ⟨-, connection, hconnection⟩ | ⟨fields, hfields, -⟩
  · cases hconnection
  · exact ⟨fields, hfields ▸ hd⟩

/-- The data of the answer to a request is never null. -/
theorem data_ne_null_of_executeRequest {document : Document} {name : Option String}
    (h : executeRequest setting document name root fuel world = some answer) :
    answer.1.data ≠ some .null := by
  unfold executeRequest at h
  cases ht : setting.registry.selectionTree document name with
  | error error =>
    rw [ht] at h
    cases h
    exact nofun
  | ok tree =>
    rw [ht] at h
    obtain ⟨fields, hfields⟩ := exists_data_of_execute (selectionTree_keysDistinct ht) h
    rw [hfields]
    exact nofun

end Execution

/-- Responses survive the way through JSON. A response is read back from its JSON just if its data
is not null and every index on the path of an error is a number of 64 bits: data, errors and
extensions are the same, in the same order, and a path that is there stays there, with its indices
and keys. The answer to a request is such a response, and so is that of the execution of a tree. -/
theorem Response.readsBack {W O C T : Type} :
    (∀ response : Response,
      ofJson? response.toJson = some response ↔ response.data ≠ some .null ∧ response.Fits)
      ∧ ∀ (setting : Execution.Setting W O C T) (root : O) (fuel : Nat) (world : W)
        (answer : Response × W), answer.1.Fits →
          (∀ tree, tree.root.KeysDistinct →
            Execution.execute setting tree root fuel world = some answer →
              ofJson? answer.1.toJson = some answer.1)
          ∧ ∀ document name,
            Execution.executeRequest setting document name root fuel world = some answer →
              ofJson? answer.1.toJson = some answer.1 := by
  refine ⟨fun response => ofJson?_toJson_iff, fun setting root fuel world answer hf => ⟨?_, ?_⟩⟩
  · intro tree hk h
    obtain ⟨fields, hfields⟩ := Execution.exists_data_of_execute hk h
    refine ofJson?_toJson_iff.2 ⟨?_, hf⟩
    rw [hfields]
    exact nofun
  · intro document name h
    exact ofJson?_toJson_iff.2 ⟨Execution.data_ne_null_of_executeRequest h, hf⟩

/-- Data with a null in it, an error at an index below an empty key, one at the empty path, and one
without a path. And the answer to a request for a list that has a null where none may be. -/
theorem Response.readsBack_partial :
    ofJson? (toJson ⟨some (.object [("pets", .array [.null]), ("a", .null)]),
        [⟨"gone", some [.key "pets", .index 0, .key ""], [("code", .string "GONE")]⟩,
          ⟨"", some [], []⟩, ⟨"late", none, []⟩], []⟩)
      = some ⟨some (.object [("pets", .array [.null]), ("a", .null)]),
        [⟨"gone", some [.key "pets", .index 0, .key ""], [("code", .string "GONE")]⟩,
          ⟨"", some [], []⟩, ⟨"late", none, []⟩], []⟩
      ∧ ∃ answer : Response,
        Execution.executeRequest Execution.gapSetting Execution.gapDocument none () 1 ()
            = some (answer, ())
          ∧ answer.errors.map ResponseError.path = [some [.key "names", .index 1]]
          ∧ answer.Fits ∧ ofJson? answer.toJson = some answer := by
  constructor
  · refine ((readsBack (W := Unit) (O := Unit) (C := Unit) (T := Unit)).1 _).2 ⟨nofun, ?_⟩
    simp [Fits, ResponseError.Fits, Segment.Fits, Width.values]
  · obtain ⟨answer, hrun, hpaths⟩ : ∃ answer : Response,
        Execution.executeRequest Execution.gapSetting Execution.gapDocument none () 1 ()
            = some (answer, ())
          ∧ answer.errors.map ResponseError.path = [some [.key "names", .index 1]] :=
      ⟨_, rfl, rfl⟩
    have hfits : answer.Fits := by
      intro error he path hp
      have hm : error.path ∈ [some [.key "names", .index 1]] := hpaths ▸ List.mem_map_of_mem he
      rw [List.mem_singleton.1 hm] at hp
      cases hp
      simp [Segment.Fits, Width.values]
    exact ⟨answer, hrun, hpaths, hfits, (readsBack.2 _ _ _ _ (answer, ()) hfits).2 _ _ hrun⟩

end QueryEngine
