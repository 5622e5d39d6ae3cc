import ClusterGate.Catalog.Label
import ClusterGate.Proofs.Catalog.Asking
import ClusterGate.Proofs.Patch.Member

/-!
# Labelling an object with a component version

An object that has the label is left alone without a question, and no other is. Otherwise the release
that the object names is asked for and decides: its version of the component is added as the label,
which can be done, changes nothing else and leaves nothing to do, and a release that is missing, or ships
no version of the component, is refused by policy. Main statement: `componentLabel_labelling`.
-/

namespace ClusterGate.Catalog

open ComponentMemo Visits
open Components (MapOf)
open Json (follow? withMember)
open Patch (Operation)

variable {object object' : Json} {component label release version text : String} {v : Version}
  {c : Components} {turns : List (Turn (Option Operation))} {id : Nat}
  {visit : Visit (Option Operation)} {op : Operation}

def labelKeys : List String := ["metadata", "labels"]

/-- The object has this text as a label, and the text is not empty. -/
def Holds (object : Json) (label text : String) : Prop :=
  object.follow? (labelKeys ++ [label]) = some (.str text) ∧ text ≠ ""

theorem labelOf?_eq_some_iff : labelOf? object label = some text ↔ Holds object label text := by
  have hfollow : labelOf? object label = (object.follow? (labelKeys ++ [label])).bind
      fun value => value.text?.filter fun text => text ≠ "" := by
    simp only [labelOf?, labelKeys, follow?, List.cons_append, List.nil_append, Option.bind_assoc,
      Option.bind_some]
  rw [hfollow, Holds, Option.bind_eq_some_iff]
  constructor
  · rintro ⟨value, hvalue, htext⟩
    obtain ⟨htext, hne⟩ := Option.filter_eq_some_iff.mp htext
    cases value with
    | str s =>
      cases htext
      exact ⟨hvalue, of_decide_eq_true hne⟩
    | _ => cases htext
  · rintro ⟨hvalue, hne⟩
    exact ⟨_, hvalue, Option.filter_eq_some_iff.mpr ⟨rfl, decide_eq_true hne⟩⟩

theorem labelOf?_eq_none (h : ∀ text, ¬Holds object label text) : labelOf? object label = none := by
  cases hlabel : labelOf? object label with
  | none => rfl
  | some text => exact absurd (labelOf?_eq_some_iff.mp hlabel) (h text)

theorem Holds.isObjectAt (h : Holds object label text) : object.IsObjectAt labelKeys := by
  obtain ⟨h, -⟩ := h
  obtain ⟨metadata, hmetadata, h⟩ := Option.bind_eq_some_iff.mp h
  obtain ⟨labels, hlabels, h⟩ := Option.bind_eq_some_iff.mp h
  obtain ⟨value, hvalue, -⟩ := Option.bind_eq_some_iff.mp h
  cases labels with
  | obj members =>
    refine ⟨members, ?_⟩
    simp only [labelKeys, follow?, hmetadata, hlabels, Option.bind_some]
  | _ => cases hvalue

/-- The object does not have the label and names a release that can be read. -/
structure Names (object : Json) (label release : String) (v : Version) : Prop where
  unset : ∀ text, ¬Holds object label text
  named : Holds object releaseLabel release
  parsed : Version.parse release = .ok v

/-! ### The program -/

def labelling (label version : String) : Operation :=
  .add (Pointer.push "/metadata/labels" label) (.str version)

/-- The verdict on the components of the release that an object names. -/
def labelVerdict (component label release : String) :
    Except GateError Components → Except GateError (Option Operation)
  | .ok c => match (c.get? component).filter fun version => version ≠ "" with
    | some version => .ok (some (labelling label version))
    | none =>
      .error (.policyViolation ("component " ++ component ++ " not found in release " ++ release))
  | .error (.releaseNotFound name) => .error (.policyViolation ("release " ++ name ++ " not found"))
  | .error e => .error e

theorem componentLabel_of_holds (h : Holds object label text) :
    componentLabel object component label = .done (.ok none) := by
  rw [componentLabel, labelOf?_eq_some_iff.mpr h]
  rfl

theorem componentLabel_of_unreleased (h : ∀ text, ¬Holds object label text)
    (hrelease : ∀ text, ¬Holds object releaseLabel text) :
    componentLabel object component label =
      .done (.error (.policyViolation ("label " ++ releaseLabel ++ " is not set"))) := by
  rw [componentLabel, labelOf?_eq_none h, labelOf?_eq_none hrelease]
  rfl

theorem componentLabel_of_error {e : Version.Invalid} (h : ∀ text, ¬Holds object label text)
    (hrelease : Holds object releaseLabel release) (hparse : Version.parse release = .error e) :
    componentLabel object component label = .done (.error (.invalidRequest e.message)) := by
  have hcomponents : componentsFor release = .done (.error (.invalidRequest e.message)) := by
    rw [componentsFor, requested, hparse]
    rfl
  rw [componentLabel, labelOf?_eq_none h, labelOf?_eq_some_iff.mpr hrelease]
  change Engine.bind (componentsFor release) _ = _
  rw [hcomponents]
  rfl

theorem componentLabel_of_names (h : Names object label release v) :
    componentLabel object component label =
      asking v.releaseName (labelVerdict component label release) := by
  rw [componentLabel, labelOf?_eq_none h.unset, labelOf?_eq_some_iff.mpr h.named]
  change Engine.bind (componentsFor release) _ = _
  rw [componentsFor, requested, h.parsed]
  refine congrArg (Engine.ask (Query.components v.releaseName)) (funext fun told => ?_)
  rcases told with e | c
  · cases e <;> rfl
  · change (match (c.get? component).filter fun version => version ≠ "" with
      | some version => _
      | none => _) = Engine.done (labelVerdict component label release (.ok c))
    rw [labelVerdict]
    cases (c.get? component).filter fun version => version ≠ "" <;> rfl

/-- The program is done at once without an operation, or the object names a release. -/
theorem componentLabel_cases (object : Json) (component label : String) :
    (∃ result, componentLabel object component label = .done result ∧
      (∀ op, result ≠ .ok (some op)) ∧ (result = .ok none → ∃ text, Holds object label text)) ∨
      ∃ release v, Names object label release v := by
  by_cases hset : ∃ text, Holds object label text
  · obtain ⟨text, htext⟩ := hset
    exact Or.inl ⟨_, componentLabel_of_holds htext, nofun, fun _ => ⟨text, htext⟩⟩
  push Not at hset
  by_cases hreleased : ∃ release, Holds object releaseLabel release
  · obtain ⟨release, hrelease⟩ := hreleased
    cases hparse : Version.parse release with
    | error e => exact Or.inl ⟨_, componentLabel_of_error hset hrelease hparse, nofun, nofun⟩
    | ok v => exact Or.inr ⟨release, v, hset, hrelease, hparse⟩
  · push Not at hreleased
    exact Or.inl ⟨_, componentLabel_of_unreleased hset hreleased, nofun, nofun⟩

/-! ### The operation -/

theorem ofTokens_labelKeys : Pointer.ofTokens labelKeys = "/metadata/labels" := by
  decide

theorem performOn?_labelling (h : object.IsObjectAt labelKeys) :
    (labelling label version).performOn? object =
      some (object.withMember labelKeys label (.str version)) := by
  have hadd := Json.performOn?_add h label (.str version)
  rw [ofTokens_labelKeys] at hadd
  exact hadd

theorem holds_withMember (label : String) (h : object.IsObjectAt labelKeys) (hne : version ≠ "") :
    Holds (object.withMember labelKeys label (.str version)) label version :=
  ⟨Json.follow?_withMember h, hne⟩

/-- Only a version that is not empty makes an operation. -/
theorem labelVerdict_eq_ok {told : Except GateError Components}
    (h : labelVerdict component label release told = .ok (some op)) :
    ∃ c version, told = .ok c ∧ c.get? component = some version ∧ version ≠ "" ∧
      op = labelling label version := by
  rcases told with e | c
  · cases e <;> cases h
  · simp only [labelVerdict] at h
    split at h
    next version hversion =>
      obtain ⟨hget, hne⟩ := Option.filter_eq_some_iff.mp hversion
      cases h
      exact ⟨c, version, rfl, hget, of_decide_eq_true hne, rfl⟩
    next => cases h

/-- The verdict is never to leave the object alone. -/
theorem labelVerdict_ne_none (told : Except GateError Components) :
    labelVerdict component label release told ≠ .ok none := by
  rcases told with e | c
  · cases e <;> exact nofun
  · rw [labelVerdict]
    cases (c.get? component).filter fun version => version ≠ "" <;> exact nofun

theorem labelVerdict_unshipped (h : ∀ version, c.get? component = some version → version = "") :
    labelVerdict component label release (.ok c) =
      .error (.policyViolation ("component " ++ component ++ " not found in release " ++ release)) := by
  have hnone : ((c.get? component).filter fun version => version ≠ "") = none := by
    cases hget : c.get? component with
    | none => rfl
    | some version =>
      obtain rfl := h version hget
      rfl
  rw [labelVerdict, hnone]

/-! ### Calls -/

/-- The visit is a call that labels the object. -/
def IsCall (turns : List (Turn (Option Operation))) (id : Nat) (object : Json)
    (component label : String) (visit : Visit (Option Operation)) : Prop :=
  (after turns).visit? id = some visit ∧ visit.program = componentLabel object component label

/-- A program without a question is at its end from the beginning, and never calls the store. -/
theorem done_visit {result : Except GateError (Option Operation)}
    (h : IsCall turns id object component label visit)
    (hdone : componentLabel object component label = .done result) :
    visit.result? = some result ∧ visit.calls = [] := by
  obtain ⟨hvisit, hprogram⟩ := h
  rw [hdone] at hprogram
  refine visit_of_program (Q := fun visit => visit.result? = some result ∧ visit.calls = [])
    ⟨rfl, rfl⟩ ?_ hvisit hprogram
  rintro ⟨program, standing, looks, calls, notes⟩ memo l ⟨hresult, hcalls⟩
  cases standing with
  | ended other =>
    refine ⟨hresult, ?_⟩
    rw [Visit.looked, hcalls]
    rfl
  | _ => cases hresult

/-- What an operation adds to an object, in a call under these turns. -/
structure Adds (turns : List (Turn (Option Operation))) (object : Json) (component label : String)
    (op : Operation) (release : String) (v : Version) (r : Record) (c : Components)
    (version : String) (object' : Json) : Prop where
  named : Holds object releaseLabel release
  parsed : Version.parse release = .ok v
  returned : Returned turns v.releaseName r
  components : MapOf r c
  ships : c.get? component = some version
  operation : op = .add (Pointer.push "/metadata/labels" label) (.str version)
  performed : op.performOn? object = some object'
  holds : Holds object' label version
  others : ∀ tokens, ¬tokens <+: ["metadata", "labels", label] →
    ¬["metadata", "labels", label] <+: tokens → object'.at? tokens = object.at? tokens
  whole : object' = object.withMember ["metadata", "labels"] label (.str version)
  ordered : object.Ordered → object'.Ordered
  again : ∀ turns id visit, IsCall turns id object' component label visit →
    visit.result? = some (.ok none) ∧ visit.calls = []

theorem adds_of_result (hcall : IsCall turns id object component label visit)
    (hresult : visit.result? = some (.ok (some op))) :
    ∃ release v r c version object', Adds turns object component label op release v r c version object' := by
  rcases componentLabel_cases object component label with ⟨result, hdone, hnone, -⟩ | ⟨release, v, hnames⟩
  · rw [(done_visit hcall hdone).1] at hresult
    exact absurd (Option.some.inj hresult) (hnone op)
  obtain ⟨hvisit, hprogram⟩ := hcall
  rw [componentLabel_of_names hnames] at hprogram
  obtain ⟨told, htold, hverdict⟩ := told_of_ended hvisit hprogram hresult
  obtain ⟨c, version, rfl, hships, hne, rfl⟩ := labelVerdict_eq_ok hverdict.symm
  obtain ⟨r, hreturned, hrecord⟩ := htold.backed
  have hlabels := hnames.named.isObjectAt
  have hholds := holds_withMember label hlabels hne
  refine ⟨release, v, r, c, version, _, hnames.named, hnames.parsed, hreturned,
    Components.mapOf_ofRecord hrecord, hships, rfl, performOn?_labelling hlabels, hholds, ?_, rfl, ?_, ?_⟩
  · intro tokens houter hinner
    exact Json.at?_withMember hlabels houter hinner
  · intro hordered
    exact Json.ordered_withMember hlabels hordered trivial
  · intro turns id visit hcall
    exact done_visit hcall (componentLabel_of_holds hholds)

theorem holds_of_unchanged (hcall : IsCall turns id object component label visit)
    (hresult : visit.result? = some (.ok none)) : ∃ text, Holds object label text := by
  rcases componentLabel_cases object component label with ⟨result, hdone, -, hholds⟩ | ⟨release, v, hnames⟩
  · rw [(done_visit hcall hdone).1] at hresult
    exact hholds (Option.some.inj hresult)
  · obtain ⟨hvisit, hprogram⟩ := hcall
    rw [componentLabel_of_names hnames] at hprogram
    obtain ⟨told, -, hverdict⟩ := told_of_ended hvisit hprogram hresult
    exact absurd hverdict.symm (labelVerdict_ne_none told)

/-- Where a call stands that has a release to ask for: at that question, or at its end with the verdict
on what it was told of that release. -/
structure Asked (turns : List (Turn (Option Operation))) (id : Nat) (component label release : String)
    (v : Version) (visit : Visit (Option Operation)) : Prop where
  calls : ∀ call ∈ visit.calls, call = .get releaseKind v.releaseName
  stands : (∃ stage next, visit.standing = .reading v.releaseName stage next) ∨
    ∃ told, WasTold turns id v.releaseName told ∧
      visit.result? = some (labelVerdict component label release told)

theorem asked_of_names (hnames : Names object label release v)
    (hcall : IsCall turns id object component label visit) :
    Asked turns id component label release v visit := by
  obtain ⟨hvisit, hprogram⟩ := hcall
  rw [componentLabel_of_names hnames] at hprogram
  obtain ⟨hstanding, hcalls⟩ := atQuestion hvisit hprogram
  refine ⟨hcalls, hstanding.imp (fun ⟨stage, h⟩ => ⟨stage, _, h⟩) ?_⟩
  rintro ⟨result, hended⟩
  have hresult : visit.result? = some result := by
    rw [Visit.result?, hended]
    rfl
  obtain ⟨told, htold, rfl⟩ := told_of_ended hvisit hprogram hresult
  exact ⟨told, htold, hresult⟩

/-- Only a call on an object that names a release asks for anything, and it asks for that release. -/
theorem names_of_reading {key : String} {stage : Reading}
    {next : Except GateError Components → Engine (Option Operation)}
    (hcall : IsCall turns id object component label visit)
    (hstanding : visit.standing = .reading key stage next) :
    ∃ release v, Names object label release v ∧ key = v.releaseName := by
  rcases componentLabel_cases object component label with ⟨result, hdone, -⟩ | ⟨release, v, hnames⟩
  · have hresult := (done_visit hcall hdone).1
    rw [Visit.result?, hstanding] at hresult
    cases hresult
  refine ⟨release, v, hnames, ?_⟩
  rcases (asked_of_names hnames hcall).stands with ⟨stage', next', h⟩ | ⟨told, -, h⟩
  · rw [hstanding] at h
    cases h
    rfl
  · rw [Visit.result?, hstanding] at h
    cases h

/-- What is said of the calls that label an object, in any interleaving of programs that visit the
catalog. The store says that it has no record by an answer without one. -/
structure Labelling (turns : List (Turn (Option Operation))) (object : Json)
    (component label : String) : Prop where
  set : ∀ text id visit, Holds object label text → IsCall turns id object component label visit →
    visit.result? = some (.ok none) ∧ visit.calls = []
  unset : ∀ id visit, IsCall turns id object component label visit →
    visit.result? = some (.ok none) → ∃ text, Holds object label text
  added : ∀ id visit op, IsCall turns id object component label visit →
    visit.result? = some (.ok (some op)) →
    ∃ release v r c version object', Adds turns object component label op release v r c version object'
  unreleased : (∀ text, ¬Holds object label text) → (∀ text, ¬Holds object releaseLabel text) →
    ∀ id visit, IsCall turns id object component label visit →
      visit.result? = some (.error (.policyViolation ("label " ++ releaseLabel ++ " is not set"))) ∧
        visit.calls = []
  unreadable : ∀ release e, (∀ text, ¬Holds object label text) → Holds object releaseLabel release →
    Version.parse release = .error e → ∀ id visit, IsCall turns id object component label visit →
      visit.result? = some (.error (.invalidRequest e.message)) ∧ visit.calls = []
  asked : ∀ release v, Names object label release v →
    ∀ id visit, IsCall turns id object component label visit →
      Asked turns id component label release v visit
  judged : ∀ earlier id l later visit release v told, turns = earlier ++ .go id l :: later →
    Names object label release v → IsCall earlier id object component label visit →
    Tells (after earlier) id l v.releaseName told →
    ((∃ e, told = .error e) ∨ ∃ l, .go id l ∈ later) →
    ∃ w, (after turns).visit? id = some w ∧
      w.result? = some (labelVerdict component label release told)
  missing : ∀ earlier id l later visit key next, turns = earlier ++ .go id l :: later →
    IsCall earlier id object component label visit →
    visit.standing = .reading key (.reading true) next →
    l.interrupt = none → l.record = some (.ok none) →
    ∃ release v w, Names object label release v ∧ key = v.releaseName ∧
      (after turns).visit? id = some w ∧
      w.result? = some (.error (.policyViolation ("release " ++ v.releaseName ++ " not found")))
  unshipped : ∀ earlier id l later visit key c, turns = earlier ++ .go id l :: later →
    IsCall earlier id object component label visit → Tells (after earlier) id l key (.ok c) →
    (∀ version, c.get? component = some version → version = "") → (∃ l, .go id l ∈ later) →
    ∃ release v w, Names object label release v ∧ key = v.releaseName ∧
      (after turns).visit? id = some w ∧
      w.result? = some (.error (.policyViolation
        ("component " ++ component ++ " not found in release " ++ release)))

theorem judged_of_tells {earlier later : List (Turn (Option Operation))} {l : Look}
    {told : Except GateError Components} (hnames : Names object label release v)
    (hcall : IsCall earlier id object component label visit)
    (htells : Tells (after earlier) id l v.releaseName told)
    (hlater : (∃ e, told = .error e) ∨ ∃ l, .go id l ∈ later) :
    ∃ w, (after (earlier ++ .go id l :: later)).visit? id = some w ∧
      w.result? = some (labelVerdict component label release told) := by
  obtain ⟨hvisit, hprogram⟩ := hcall
  rw [componentLabel_of_names hnames] at hprogram
  exact ended_of_told hvisit hprogram htells hlater

theorem componentLabel_labelling (turns : List (Turn (Option Operation))) (object : Json)
    (component label : String) : Labelling turns object component label where
  set text id visit htext hcall := done_visit hcall (componentLabel_of_holds htext)
  unset id visit hcall hresult := holds_of_unchanged hcall hresult
  added id visit op hcall hresult := adds_of_result hcall hresult
  unreleased hset hreleased id visit hcall :=
    done_visit hcall (componentLabel_of_unreleased hset hreleased)
  unreadable release e hset hrelease hparse id visit hcall :=
    done_visit hcall (componentLabel_of_error hset hrelease hparse)
  asked release v hnames id visit hcall := asked_of_names hnames hcall
  judged := by
    rintro earlier id l later visit release v told rfl hnames hcall htells hlater
    exact judged_of_tells hnames hcall htells hlater
  missing := by
    rintro earlier id l later visit key next rfl hcall hstanding hfree hnone
    obtain ⟨release, v, hnames, rfl⟩ := names_of_reading hcall hstanding
    have htells := Tells.answered hcall.1 hstanding hfree hnone
    obtain ⟨w, hw, hresult⟩ := judged_of_tells hnames hcall htells (Or.inl ⟨_, rfl⟩)
    exact ⟨release, v, w, hnames, rfl, hw, hresult⟩
  unshipped := by
    rintro earlier id l later visit key c rfl hcall htells hships hlater
    obtain ⟨stage, next, hstanding⟩ := htells.standing hcall.1
    obtain ⟨release, v, hnames, rfl⟩ := names_of_reading hcall hstanding
    obtain ⟨w, hw, hresult⟩ := judged_of_tells hnames hcall htells (Or.inr hlater)
    rw [labelVerdict_unshipped hships] at hresult
    exact ⟨release, v, w, hnames, rfl, hw, hresult⟩

def labelled (labels : Dict Json) : Json := .obj [("metadata", .obj [("labels", .obj labels)])]

def shippingApp : Record where
  kind := releaseKind
  name := "v1.0.0"
  spec := .obj [("components", .arr [.obj [("name", .str "app"), ("version", .str "2")]])]

/-- A call on an object that names a release, which gets this answer from the store. -/
def answeredCall (object : Json) (a : Except StorageError (Option Record)) :
    List (Turn (Option Operation)) :=
  [.enter (componentLabel object "app" "a/b~c"), .go 0 {}, .go 0 {}, .go 0 { record := some a },
    .go 0 {}]

/-- A label with characters that a pointer escapes. -/
theorem labelling_escaped :
    let before := labelled [(releaseLabel, .str "1.0")]
    let withLabel := labelled [("a/b~c", .str "2"), (releaseLabel, .str "1.0")]
    let op : Operation := .add "/metadata/labels/a~1b~0c" (.str "2")
    let turns := answeredCall before (.ok (some shippingApp))
    ∃ visit, IsCall turns 0 before "app" "a/b~c" visit ∧ visit.result? = some (.ok (some op)) ∧
      ∃ release v r c version,
        Adds turns before "app" "a/b~c" op release v r c version withLabel := by
  intro before withLabel op turns
  have hvisits : (after turns).visits.map (fun visit => (visit.program, visit.result?)) =
      [(componentLabel before "app" "a/b~c", some (.ok (some op)))] := rfl
  obtain ⟨visit, hvisit, hlooks⟩ := List.map_eq_singleton_iff.mp hvisits
  obtain ⟨hprogram, hresult⟩ := Prod.mk.inj hlooks
  have hcall : IsCall turns 0 before "app" "a/b~c" visit := by
    refine ⟨?_, hprogram⟩
    rw [visit?, hvisit]
    rfl
  obtain ⟨release, v, r, c, version, object', hadds⟩ :=
    (componentLabel_labelling turns before "app" "a/b~c").added 0 visit op hcall hresult
  have hobject : op.performOn? before = some withLabel := rfl
  rw [hadds.performed] at hobject
  cases hobject
  exact ⟨visit, hcall, hresult, release, v, r, c, version, hadds⟩

end ClusterGate.Catalog
