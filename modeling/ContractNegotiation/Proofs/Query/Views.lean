import ContractNegotiation.Proofs.Query.Schema
import ContractNegotiation.Proofs.Query.Thinning

namespace ContractNegotiation.Query

variable {α β : Type} {s name : String} {path : List String} {e m : Element} {ft : FieldType}

namespace Element

def field (name : String) : Element → List Element
  | message fields => (fields.lookup name).getD []
  | _ => []

def withField (name : String) (elements : List Element) : Element → Element
  | message fields => message (put name elements fields)
  | e => e

def isPlain : List Element → Bool
  | [scalar (_ :: _)] => true
  | _ => false

def hasForm (type : MessageType) : Element → Bool
  | message fields => (fields.all fun field => (type.field? field.1).isSome) &&
      type.fields.all fun field => field.2 ≠ .scalar || isPlain ((message fields).field field.1)
  | _ => false

theorem mem_field_iff {fields : List (String × List Element)} :
    e ∈ (message fields).field name ↔
      ∃ elements, fields.lookup name = some elements ∧ e ∈ elements := by
  cases hl : fields.lookup name <;> simp [field, hl]

theorem Shows.from_field (h : e.Shows s path) (he : e ∈ m.field name) :
    m.Shows s (name :: path) := by
  cases m with
  | message fields =>
    obtain ⟨elements, hl, he⟩ := mem_field_iff.mp he
    exact .field name path fields elements e hl he h
  | scalar | properties => cases he

theorem Keyed.field (h : m.Keyed) (he : e ∈ m.field name) : e.Keyed := by
  cases m with
  | message fields =>
    obtain ⟨elements, hl, he⟩ := mem_field_iff.mp he
    exact fun entries hc => h entries (.within fields _ e (mem_of_lookup hl) he hc)
  | scalar | properties => cases he

theorem withField_self (h : m.field name = [e]) : m.withField name [e] = m := by
  cases m with
  | message fields =>
    obtain ⟨elements, hl, -⟩ := mem_field_iff.mp (h ▸ List.mem_singleton_self e)
    obtain rfl : elements = [e] := by simpa [field, hl] using h
    simp only [withField, put_lookup hl]
  | scalar | properties => cases h

theorem fields_of_hasForm {type : MessageType} (h : m.hasForm type = true) :
    ∃ fields, m = message fields ∧
      (∀ name elements, fields.lookup name = some elements → ∃ ft, type.field? name = some ft) ∧
      ∀ name, type.field? name = some .scalar → isPlain (m.field name) = true := by
  cases m with
  | message fields =>
    simp only [hasForm, Bool.and_eq_true, List.all_eq_true, Bool.or_eq_true,
      decide_eq_true_eq] at h
    obtain ⟨hknown, hplain⟩ := h
    refine ⟨fields, rfl, fun name elements hl => ?_, fun name hft => ?_⟩
    · exact Option.isSome_iff_exists.mp (hknown _ (mem_of_lookup hl))
    · exact (hplain _ (mem_of_lookup hft)).resolve_left (· rfl)
  | scalar | properties => cases h

end Element

open Element

/-- A way to view messages agrees with their type: a view shows something only at paths that the
type admits, at each of these some view does, and a thinned view is a view. -/
structure Conforms (view : α → Element) (ft : FieldType) : Prop where
  admits {x : α} {s : String} {path : List String} :
    (view x).Keyed → (view x).Shows s path → ft.Admits path
  reaches {path : List String} : ft.Admits path → ∃ x s, (view x).Shows s path
  closed {x : α} {path : List String} {e : Element} : (view x).Thinned path e → ∃ y, e = view y

structure ConformsAt (view : α → Element) (name : String) (ft : FieldType) : Prop where
  admits {x : α} {e : Element} {s : String} {path : List String} :
    e ∈ (view x).field name → e.Keyed → e.Shows s path → ft.Admits path
  reaches {path : List String} : ft.Admits path →
    ∃ x, ∃ e ∈ (view x).field name, ∃ s, e.Shows s path
  closed {x : α} {e e' : Element} {path : List String} :
    e ∈ (view x).field name → e.Thinned path e' → ∃ y, (view x).withField name [e'] = view y

variable {view : α → Element}

def trail : List String → Value
  | [] => .text ""
  | key :: keys => .fields [(key, trail keys)]

theorem trail_shows (keys : List String) : (trail keys).Shows "" keys := by
  induction keys with
  | nil => exact .text
  | cons key keys ih => exact .entry key keys _ _ (by simp) ih

theorem conforms_properties : Conforms properties .properties where
  admits {entries s path} hkeyed h := by
    cases h with
    | properties _ _ h =>
      refine admits_properties_iff.mpr ⟨?_, (hkeyed entries .here).notMem h⟩
      rintro rfl
      cases h
  reaches h := by
    cases h with
    | keys key keys => exact ⟨[(key, trail keys)], "", .properties _ _ (trail_shows (key :: keys))⟩
  closed h := by
    cases h with
    | ended => exact ⟨_, rfl⟩
    | properties _ _ entries' => exact ⟨entries', rfl⟩

theorem conformsAt_plain [Inhabited α] (h : ∀ x, isPlain ((view x).field name) = true) :
    ConformsAt view name .scalar := by
  have hscalar (x : α) : ∃ s texts, (view x).field name = [scalar (s :: texts)] := by
    have := h x
    unfold isPlain at this
    split at this
    · exact ⟨_, _, ‹_›⟩
    · cases this
  constructor
  · rintro x e s path he - hs
    obtain ⟨t, texts, hx⟩ := hscalar x
    obtain rfl := List.mem_singleton.mp (hx ▸ he)
    cases hs
    exact .scalar
  · rintro path ⟨⟩
    obtain ⟨t, texts, hx⟩ := hscalar default
    exact ⟨default, _, hx ▸ List.mem_singleton_self _, t, .scalar _ List.mem_cons_self⟩
  · intro x e e' path he he'
    obtain ⟨t, texts, hx⟩ := hscalar x
    obtain rfl := List.mem_singleton.mp (hx ▸ he)
    cases he'
    exact ⟨x, withField_self hx⟩

theorem conformsAt_of {inner : β → Element} [Inhabited α] (hinner : Conforms inner ft)
    (get : α → List β) (set : β → α → α) (hget : ∀ x, (view x).field name = (get x).map inner)
    (hset : ∀ x y, get (set y x) = [y] ∧
      (get x ≠ [] → (view x).withField name [inner y] = view (set y x))) :
    ConformsAt view name ft := by
  have hmem {x : α} {e : Element} (he : e ∈ (view x).field name) : ∃ y ∈ get x, inner y = e :=
    List.mem_map.mp (hget x ▸ he)
  constructor
  · intro x e s path he hkeyed hs
    obtain ⟨y, -, rfl⟩ := hmem he
    exact hinner.admits hkeyed hs
  · intro path hpath
    obtain ⟨y, s, hs⟩ := hinner.reaches hpath
    refine ⟨set y default, inner y, ?_, s, hs⟩
    rw [hget, (hset default y).1]
    exact List.mem_singleton_self _
  · intro x e e' path he he'
    obtain ⟨y, hy, rfl⟩ := hmem he
    obtain ⟨z, rfl⟩ := hinner.closed he'
    exact ⟨set z x, (hset x z).2 (List.ne_nil_of_mem hy)⟩

theorem conforms_message [Inhabited α] {type : MessageType}
    (hform : ∀ x, (view x).hasForm type = true)
    (h : ∀ field ∈ type.fields, field.2 ≠ .scalar → ConformsAt view field.1 field.2) :
    Conforms view (.message type) := by
  -- scalar fields agree by the form of the view, the others by assumption
  have hat {name : String} {ft : FieldType} (hft : type.field? name = some ft) :
      ConformsAt view name ft := by
    by_cases hscalar : ft = .scalar
    · subst hscalar
      refine conformsAt_plain fun x => ?_
      obtain ⟨fields, -, -, hplain⟩ := fields_of_hasForm (hform x)
      exact hplain name hft
    · exact h _ (mem_of_lookup hft) hscalar
  constructor
  · intro x s path hkeyed hs
    obtain ⟨fields, hx, hknown, -⟩ := fields_of_hasForm (hform x)
    rw [hx] at hs
    cases hs with
    | field name rest _ elements e hl he hs =>
      obtain ⟨ft, hft⟩ := hknown name elements hl
      have he : e ∈ (view x).field name := hx ▸ mem_field_iff.mpr ⟨elements, hl, he⟩
      exact .field type name ft rest hft ((hat hft).admits he (hkeyed.field he) hs)
  · intro path hpath
    cases hpath with
    | field _ name ft rest hft hrest =>
      obtain ⟨x, e, he, s, hs⟩ := (hat hft).reaches hrest
      exact ⟨x, s, hs.from_field he⟩
  · intro x path e' he'
    obtain ⟨fields, hx, hknown, -⟩ := fields_of_hasForm (hform x)
    rw [hx] at he'
    cases he' with
    | ended => exact ⟨x, hx.symm⟩
    | field name rest _ elements e e' hl he he' =>
      obtain ⟨ft, hft⟩ := hknown name elements hl
      have he : e ∈ (view x).field name := hx ▸ mem_field_iff.mpr ⟨elements, hl, he⟩
      obtain ⟨y, hy⟩ := (hat hft).closed he he'
      rw [hx] at hy
      exact ⟨y, hy⟩

theorem conforms_scalars [Inhabited α] {type : MessageType}
    (hform : ∀ x, (view x).hasForm type = true) (h : ∀ field ∈ type.fields, field.2 = .scalar) :
    Conforms view (.message type) :=
  conforms_message hform fun field hf hne => absurd (h field hf) hne

theorem conforms_policy : Conforms ofPolicy (.message .policy) := by
  refine conforms_message (fun _ => rfl) ?_
  simpa [MessageType.fields, scalars] using ⟨
    conformsAt_of conforms_properties (·.permissions) (fun y p => { p with permissions := [y] })
      (fun _ => rfl) fun _ _ => ⟨rfl, fun _ => rfl⟩,
    conformsAt_of conforms_properties (·.prohibitions) (fun y p => { p with prohibitions := [y] })
      (fun _ => rfl) fun _ _ => ⟨rfl, fun _ => rfl⟩,
    conformsAt_of conforms_properties (·.obligations) (fun y p => { p with obligations := [y] })
      (fun _ => rfl) fun _ _ => ⟨rfl, fun _ => rfl⟩,
    conformsAt_of conforms_properties (·.extensibleProperties.toList)
      (fun y p => { p with extensibleProperties := some y })
      (fun _ => rfl) fun _ _ => ⟨rfl, fun _ => rfl⟩⟩

theorem conforms_offer : Conforms ofOffer (.message .offer) := by
  refine conforms_message (fun _ => rfl) ?_
  simpa [MessageType.fields, scalars] using
    conformsAt_of conforms_policy (·.policy.toList) (fun y o => { o with policy := some y })
      (fun _ => rfl) fun _ _ => ⟨rfl, fun _ => rfl⟩

theorem conforms_agreement : Conforms ofAgreement (.message .agreement) := by
  refine conforms_message (fun _ => rfl) ?_
  simpa [MessageType.fields, scalars] using
    conformsAt_of conforms_policy (·.policy.toList) (fun y a => { a with policy := some y })
      (fun _ => rfl) fun _ _ => ⟨rfl, fun _ => rfl⟩

theorem conforms_negotiation : Conforms ofNegotiation (.message .negotiation) := by
  refine conforms_message ?_ ?_
  · rintro ⟨_, _, _ | _ | _⟩ <;> rfl
  simpa [MessageType.fields, scalars] using ⟨
    conformsAt_of conforms_offer (·.offers) (fun y n => { n with offers := [y] })
      (fun _ => rfl) fun _ _ => ⟨rfl, fun _ => rfl⟩,
    conformsAt_of conforms_agreement (·.agreement.toList)
      (fun y n => { n with agreement := some y }) (fun _ => rfl) fun _ _ => ⟨rfl, fun _ => rfl⟩⟩

theorem conforms_contractRequest : Conforms ofContractRequest (.message .contractRequest) := by
  refine conforms_message (fun _ => rfl) ?_
  simpa [MessageType.fields, scalars] using
    conformsAt_of conforms_offer (·.offer.toList) (fun y r => { r with offer := some y })
      (fun _ => rfl) fun _ _ => ⟨rfl, fun _ => rfl⟩

theorem conforms_requestMessage : Conforms ofRequestMessage (.message .requestMessage) := by
  refine conforms_message (fun _ => rfl) ?_
  simpa [MessageType.fields, routingFields, scalars] using
    conformsAt_of conforms_offer (·.offer.toList) (fun y m => { m with offer := some y })
      (fun _ => rfl) fun _ _ => ⟨rfl, fun _ => rfl⟩

theorem conforms_offerMessage : Conforms ofOfferMessage (.message .offerMessage) := by
  refine conforms_message (fun _ => rfl) ?_
  simpa [MessageType.fields, routingFields, scalars] using
    conformsAt_of conforms_offer (·.offer.toList) (fun y m => { m with offer := some y })
      (fun _ => rfl) fun _ _ => ⟨rfl, fun _ => rfl⟩

theorem conforms_agreementMessage : Conforms ofAgreementMessage (.message .agreementMessage) := by
  refine conforms_message (fun _ => rfl) ?_
  simpa [MessageType.fields, routingFields, scalars] using ⟨
    conformsAt_of conforms_agreement (·.agreement.toList)
      (fun y m => { m with agreement := some y }) (fun _ => rfl) fun _ _ => ⟨rfl, fun _ => rfl⟩,
    conformsAt_of conforms_policy (·.policy.toList) (fun y m => { m with policy := some y })
      (fun _ => rfl) fun _ _ => ⟨rfl, fun _ => rfl⟩⟩

theorem conforms_verificationMessage :
    Conforms ofVerificationMessage (.message .verificationMessage) :=
  conforms_scalars (fun _ => rfl) (by decide)

theorem conforms_eventMessage : Conforms ofEventMessage (.message .eventMessage) :=
  conforms_scalars (fun _ => rfl) (by decide)

theorem conforms_terminationMessage :
    Conforms ofTerminationMessage (.message .terminationMessage) :=
  conforms_scalars (fun _ => rfl) (by decide)

theorem conforms_remoteMessage : Conforms ofRemoteMessage (.message .remoteMessage) := by
  refine conforms_message (fun m => by cases m <;> rfl) ?_
  simpa [MessageType.fields] using ⟨
    conformsAt_of conforms_requestMessage (fun | .request m => [m] | _ => [])
      (fun m _ => .request m)
      (fun m => by cases m <;> rfl) fun m _ => ⟨rfl, by cases m <;> simp; rfl⟩,
    conformsAt_of conforms_offerMessage (fun | .offer m => [m] | _ => []) (fun m _ => .offer m)
      (fun m => by cases m <;> rfl) fun m _ => ⟨rfl, by cases m <;> simp; rfl⟩,
    conformsAt_of conforms_agreementMessage (fun | .agreement m => [m] | _ => [])
      (fun m _ => .agreement m)
      (fun m => by cases m <;> rfl) fun m _ => ⟨rfl, by cases m <;> simp; rfl⟩,
    conformsAt_of conforms_verificationMessage (fun | .verification m => [m] | _ => [])
      (fun m _ => .verification m)
      (fun m => by cases m <;> rfl) fun m _ => ⟨rfl, by cases m <;> simp; rfl⟩,
    conformsAt_of conforms_eventMessage (fun | .event m => [m] | _ => []) (fun m _ => .event m)
      (fun m => by cases m <;> rfl) fun m _ => ⟨rfl, by cases m <;> simp; rfl⟩,
    conformsAt_of conforms_terminationMessage (fun | .termination m => [m] | _ => [])
      (fun m _ => .termination m)
      (fun m => by cases m <;> rfl) fun m _ => ⟨rfl, by cases m <;> simp; rfl⟩⟩

theorem conforms_logging : Conforms ofLogging (.message .loggingSettings) :=
  conforms_scalars (fun _ => rfl) (by decide)

theorem conforms_tracing : Conforms ofTracing (.message .tracingSettings) :=
  conforms_scalars (fun _ => rfl) (by decide)

theorem conforms_metrics : Conforms ofMetrics (.message .metricsSettings) :=
  conforms_scalars (fun _ => rfl) (by decide)

theorem conforms_observability : Conforms ofObservability (.message .observabilitySettings) := by
  refine conforms_message (fun _ => rfl) ?_
  simpa [MessageType.fields, scalars] using ⟨
    conformsAt_of conforms_tracing (·.tracing.toList) (fun y s => { s with tracing := some y })
      (fun _ => rfl) fun _ _ => ⟨rfl, fun _ => rfl⟩,
    conformsAt_of conforms_metrics (·.metrics.toList) (fun y s => { s with metrics := some y })
      (fun _ => rfl) fun _ _ => ⟨rfl, fun _ => rfl⟩⟩

theorem conforms_manager : Conforms ofManager (.message .managerSettings) :=
  conforms_scalars (fun _ => rfl) (by decide)

theorem conforms_connector : Conforms ofConnector (.message .connectorSettings) :=
  conforms_scalars (fun _ => rfl) (by decide)

theorem conforms_memory : Conforms ofMemory (.message .memorySettings) :=
  conforms_scalars (fun _ => rfl) (by decide)

theorem conforms_database : Conforms ofDatabase (.message .databaseSettings) := by
  refine conforms_message (fun _ => rfl) ?_
  simpa [MessageType.fields] using
    conformsAt_of conforms_memory (·.memory.toList) (fun y s => { s with memory := some y })
      (fun _ => rfl) fun _ _ => ⟨rfl, fun _ => rfl⟩

theorem conforms_settings : Conforms ofSettings (.message .settings) := by
  refine conforms_message (fun _ => rfl) ?_
  simpa [MessageType.fields] using ⟨
    conformsAt_of conforms_logging (·.logging.toList) (fun y s => { s with logging := some y })
      (fun _ => rfl) fun _ _ => ⟨rfl, fun _ => rfl⟩,
    conformsAt_of conforms_observability (·.observability.toList)
      (fun y s => { s with observability := some y }) (fun _ => rfl) fun _ _ => ⟨rfl, fun _ => rfl⟩,
    conformsAt_of conforms_manager (·.manager.toList) (fun y s => { s with manager := some y })
      (fun _ => rfl) fun _ _ => ⟨rfl, fun _ => rfl⟩,
    conformsAt_of conforms_connector (·.connector.toList)
      (fun y s => { s with connector := some y }) (fun _ => rfl) fun _ _ => ⟨rfl, fun _ => rfl⟩,
    conformsAt_of conforms_database (·.database.toList) (fun y s => { s with database := some y })
      (fun _ => rfl) fun _ _ => ⟨rfl, fun _ => rfl⟩⟩

theorem conforms_root (root : Root) : Conforms root.view (.message root.type) := by
  cases root with
  | negotiation => exact conforms_negotiation
  | offer => exact conforms_offer
  | agreement => exact conforms_agreement
  | policy => exact conforms_policy
  | remoteMessage => exact conforms_remoteMessage
  | contractRequest => exact conforms_contractRequest
  | settings => exact conforms_settings

/-- A path is accepted for a type just when a message of the type can have a value there. At any
other path criteria fail of all messages without empty keys, but for inequality, which holds of all
of them unless the path is empty. Texts are no more than sequences here, of characters as well as of
bytes. -/
theorem checkPath_agrees (root : Root) (path : String) :
    (checkPath root.type path = .ok () → ∃ (m : root.Message) (operand : String),
      (Criterion.mk path "=" operand).holds (root.view m) = true) ∧
    ∀ error, checkPath root.type path = .error error →
      ∀ m : root.Message, (root.view m).Keyed → ∀ operand,
        (∀ op ∈ ["=", "in", "like"], (Criterion.mk path op operand).holds (root.view m) = false) ∧
        ((Criterion.mk path "!=" operand).holds (root.view m) = true ↔ path ≠ "") := by
  constructor
  · intro hok
    obtain ⟨hpath, hadmits⟩ := checkPath_iff.mp hok
    obtain ⟨m, s, hs⟩ := (conforms_root root).reaches hadmits
    exact ⟨m, s, (Criterion.holds_iff (by simp) hpath).mpr
      ⟨s, hs, Criterion.accepts_equal_iff.mpr rfl⟩⟩
  · intro error herror m hkeyed operand
    by_cases hpath : path = ""
    · simp [Criterion.holds, hpath]
    have hnone (s : String) : ¬ (root.view m).Shows s (segments path) := fun hs => by
      have hok := checkPath_iff.mpr ⟨hpath, (conforms_root root).admits hkeyed hs⟩
      rw [herror] at hok
      cases hok
    refine ⟨fun op hop => ?_, ?_⟩
    · rw [Bool.eq_false_iff, ne_eq, Criterion.holds_iff hop hpath]
      rintro ⟨s, hs, -⟩
      exact hnone s hs
    · rw [Criterion.holds_unequal_iff rfl hpath]
      exact iff_of_true (hnone operand) hpath

/-- A criterion that is no inequality holds of a message when it holds of one of its thinned copies,
an inequality when it holds of all of them. There always is one, nothing in it is left to choose,
and it is a message of the same type. -/
theorem holds_by_choice (c : Criterion) (hpath : c.path ≠ "") (e : Element) :
    (c.op ∈ ["=", "in", "like"] →
      (c.holds e = true ↔ ∃ e', e.Thinned (segments c.path) e' ∧ c.holds e' = true)) ∧
    (c.op = "!=" →
      (c.holds e = true ↔ ∀ e', e.Thinned (segments c.path) e' → c.holds e' = true)) ∧
    (∃ e', e.Thinned (segments c.path) e') ∧
    ∀ e', e.Thinned (segments c.path) e' →
      (∀ e'', e'.Thinned (segments c.path) e'' → e'' = e') ∧
      ∀ (root : Root) (m : root.Message), e = root.view m → ∃ m', e' = root.view m' := by
  refine ⟨fun hop => Criterion.holds_iff_thinned hop hpath,
    fun hop => Criterion.holds_unequal_iff_thinned hop hpath, e.exists_thinned _, ?_⟩
  intro e' he'
  refine ⟨fun e'' he'' => he'.unique he'', ?_⟩
  rintro root m rfl
  exact (conforms_root root).closed he'

def nested : Policy where
  extensibleProperties := some [("a", .list [.text "x", .list [.text "y", .list []]])]

theorem holds_by_choice_of_nested :
    (Criterion.mk "extensibleProperties.a" "=" "y").holds (ofPolicy nested) = true ∧
    ∃ p : Policy, (ofPolicy nested).Thinned ["extensibleProperties", "a"] (ofPolicy p) ∧
      (Criterion.mk "extensibleProperties.a" "=" "y").holds (ofPolicy p) = true := by
  have hpath : "extensibleProperties.a" ≠ "" := by decide
  have hsegments : segments "extensibleProperties.a" = ["extensibleProperties", "a"] := by decide
  have hshows : (ofPolicy nested).Shows "y" ["extensibleProperties", "a"] :=
    .field _ _ _ _ _ rfl List.mem_cons_self <| .properties _ _ <| .entry _ _ _ _ rfl <|
      .item _ _ (.list [.text "y", .list []]) (by simp) <| .item _ _ _ List.mem_cons_self .text
  have hholds : (Criterion.mk "extensibleProperties.a" "=" "y").holds (ofPolicy nested) = true :=
    (Criterion.holds_iff (by simp) hpath).mpr
      ⟨"y", hsegments ▸ hshows, Criterion.accepts_equal_iff.mpr rfl⟩
  obtain ⟨hequal, -, -, hclosed⟩ :=
    holds_by_choice ⟨"extensibleProperties.a", "=", "y"⟩ hpath (ofPolicy nested)
  obtain ⟨e, hthinned, he⟩ := (hequal (by simp)).mp hholds
  obtain ⟨p, rfl⟩ := (hclosed e hthinned).2 .policy nested rfl
  exact ⟨hholds, p, hsegments ▸ hthinned, he⟩

end ContractNegotiation.Query
