import NamedContent.Proofs.Object.Operations

/-! # One writer and many readers

One application saves an object or declares it gone, any number of others update theirs, and all do
so in any order. Every update observes the last publication: no cached object of an older version,
no interest still held and no order of the steps makes it observe another one.

* `Sharing`: a writer with its readers on a node, `Sharing.Step`: what they may do
* `Sharing.published`: what a run publishes
* `Sharing.update_observes_last`: the main theorem -/

namespace NamedContent

/-- A writer and the readers of what it publishes, on one node. -/
structure Sharing (α : Type) where
  /-- The name they share. -/
  root : Name
  /-- The node they all work on. -/
  node : Node
  /-- The object that is saved and declared gone. -/
  writer : VersionedObject α
  /-- The objects that are updated. -/
  readers : List (VersionedObject α)

namespace Sharing

variable {α : Type}

/-! ## Runs -/

/-- A step of the writer, of a reader, or of the clock. -/
inductive Step (α : Type) where
  /-- The clock reads something. -/
  | setClock (reading : Timestamp)
  /-- The writer takes a value and saves it. -/
  | save (value : α)
  /-- The writer declares the shared name gone. -/
  | saveAsGone
  /-- The writer declares the root of its own name gone. -/
  | saveRootAsGone
  /-- Another application comes in as a reader. -/
  | join (client : Client) (copy : WorkingCopy α)
  /-- A reader updates its object. -/
  | update (reader : Nat)
  /-- A reader asks the network for anything. -/
  | get (reader : Nat) (interest : Interest) (timeout : Option Nat)

/-- An application comes in with an object of a name, on a face of its own. -/
def enter (root : Name) (client : Client) (copy : WorkingCopy α) :
    Action Node Empty (VersionedObject α) := do
  let face ← Node.openFace client.config.retry
  VersionedObject.create { client with face } (some root) copy

/-- A writer alone on a new node. -/
def start (capacity : Nat) (clock : Timestamp) (root : Name) (client : Client)
    (copy : WorkingCopy α) : Sharing α :=
  match enter root client copy (Node.new capacity clock) with
  | (.ok writer, node) => ⟨root, node, writer, []⟩

/-- The state after a step. What fails leaves behind what it has done. -/
def take (codec : PayloadCodec α) (w : Sharing α) : Step α → Sharing α
  | .setClock reading => { w with node := { w.node with clock := reading } }
  | .save value =>
    match VersionedObject.save codec (w.writer.set value, w.node) with
    | (_, writer, node) => { w with writer, node }
  | .saveAsGone =>
    match VersionedObject.saveAsGone w.root (w.writer, w.node) with
    | (_, writer, node) => { w with writer, node }
  | .saveRootAsGone =>
    match VersionedObject.saveRootAsGone (w.writer, w.node) with
    | (_, writer, node) => { w with writer, node }
  | .join client copy =>
    match enter w.root client copy w.node with
    | (.ok reader, node) => { w with readers := w.readers ++ [reader], node }
  | .update k =>
    match w.readers[k]? with
    | none => w
    | some reader =>
      match VersionedObject.update codec (reader, w.node) with
      | (_, reader, node) => { w with readers := w.readers.set k reader, node }
  | .get k i timeout =>
    match w.readers[k]? with
    | none => w
    | some reader => { w with node := (Node.get reader.client.face i timeout w.node).2 }

/-- The state after the steps of a run. -/
def run (codec : PayloadCodec α) (steps : List (Step α)) (w : Sharing α) : Sharing α :=
  steps.foldl (take codec) w

/-- Coming in succeeds, and brings a new object of the name that has published nothing. -/
theorem enter_eq_ok (root : Name) (client : Client) (copy : WorkingCopy α) (s : Node) :
    ∃ o s', enter root client copy s = (.ok o, s')
      ∧ o.client = { client with face := o.client.face }
      ∧ o.name = some root ∧ ∀ a, s.Offers a → s'.Offers a := by
  refine ⟨_, _, rfl, rfl, rfl, fun a h => ?_⟩
  exact (h.openFace (ε := Empty) client.config.retry).openController (ε := Empty) ⟨s.nextId⟩
    client.flowLimits

/-! ## What is published -/

/-- What a step publishes: a value, provided that it has a payload, or a tombstone. -/
def Step.publication (codec : PayloadCodec α) : Step α → Option (Option α)
  | .save value => if (codec.encode value).toOption.isSome then some (some value) else none
  | .saveAsGone => some none
  | .saveRootAsGone => some none
  | .setClock _ => none
  | .join _ _ => none
  | .update _ => none
  | .get _ _ _ => none

/-- What a run publishes, in its order. -/
def published (codec : PayloadCodec α) (steps : List (Step α)) : List (Option α) :=
  steps.filterMap (Step.publication codec)

/-- The number of objects in a publication. -/
def objectCount (codec : PayloadCodec α) (config : Config) : Option α → Nat
  | some value =>
    match codec.encode value with
    | .ok payload => Stream.segmentCount config payload.length
    | .error _ => 0
  | none => 1

/-- The number of objects that a run publishes. -/
def totalCount (codec : PayloadCodec α) (config : Config) (steps : List (Step α)) : Nat :=
  ((published codec steps).map (objectCount codec config)).sum

/-- What a reader observes when it updates: nothing yet, the value last saved, or the tombstone,
with the name that the writer is bound to. -/
def Observes (w : Sharing α) (reader : VersionedObject α)
    (outcome : Except ObjectError Unit × VersionedObject α × Node) :
    Option (Option α) → Prop
  | none => outcome.1 = .error (.read (.noVersionFound w.root)) ∧ outcome.2.1 = reader
  | some publication => outcome.1 = .ok () ∧ w.writer.bound = true
      ∧ outcome.2.1.name = w.writer.name
      ∧ match publication with
        | some value => outcome.2.1.state = .clean ∧ outcome.2.1.copy.data = some value
        | none => outcome.2.1.state = .gone

/-- The time that the next publication is given. -/
def nextTime (w : Sharing α) : Timestamp := Timestamp.mint w.node.clock w.node.lastMinted

/-- Whether each publication of a run is given a time below the limit of versions. -/
def Timely (codec : PayloadCodec α) : List (Step α) → Sharing α → Prop
  | [], _ => True
  | step :: rest, w =>
    (step.publication codec ≠ none → w.nextTime.ticks.toNat < versionLimit)
      ∧ Timely codec rest (w.take codec step)

/-- What is assumed of a run: the writer's signer never fails, the indices of every payload's
segments fit into 64 bits, the writer's controller has room for all that is published, minted times
stay below the limit of versions, and every reader follows the writer and may make a call for each
object and one more. -/
structure Admissible (codec : PayloadCodec α) (w : Sharing α) (steps : List (Step α)) : Prop where
  signs : w.writer.client.signer.Signs
  fits : ∀ value payload, .save value ∈ steps → codec.encode value = .ok payload →
    Stream.Fits w.writer.client.config payload.length
  room : totalCount codec w.writer.client.config steps
    ≤ w.writer.client.config.bufferCapacity.toNat
  times : Timely codec steps w
  readers : ∀ client copy, .join client copy ∈ steps →
    client.reader.Suits w.writer.client.config w.writer.client.signer
      ∧ totalCount codec w.writer.client.config steps < client.readLimit

/-! ## What every run keeps -/

/-- The payload of a publication. -/
def payloadOf (codec : PayloadCodec α) (publication : Option α) : Option Bytes :=
  publication.bind fun value => (codec.encode value).toOption

/-- How a writer and its readers stand after a run that has published some versions: these are all
that the node holds, the writer is bound to the last one, and every reader may follow. -/
structure Tracks (codec : PayloadCodec α) (root : Name) (config : Config) (signer : Signer)
    (limit : Nat) (publications : List (Option α)) (past : List Publication) (w : Sharing α) :
    Prop where
  sameRoot : w.root = root
  published : VersionedObject.Published w.root past w.writer w.node
  writerConfig : w.writer.client.config = config
  writerSigner : w.writer.client.signer = signer
  payloads : past.map (·.payload) = publications.map (payloadOf codec)
  count : (History.units past).length = (publications.map (objectCount codec config)).sum
  name : ∃ name, w.writer.name = some name ∧ name.versionRoot = w.root
  bound : ∀ p, past.getLast? = some p →
    w.writer.name = some (p.name w.root) ∧ w.writer.bound = true
  readers : ∀ r ∈ w.readers, r.client.reader.Suits config signer ∧ limit < r.client.readLimit
    ∧ ∃ name, r.name = some name ∧ name.versionRoot = w.root

variable {codec : PayloadCodec α} {root : Name} {config : Config} {signer : Signer} {limit : Nat}
  {publications : List (Option α)} {past : List Publication} {w : Sharing α}

namespace Tracks

/-- A new publication of the writer. -/
theorem concat (h : Tracks codec root config signer limit publications past w) {p : Publication}
    {writer : VersionedObject α} {node : Node}
    (hpublished : VersionedObject.Published w.root (past ++ [p]) writer node)
    (hclient : writer.client = w.writer.client) (hname : writer.name = some (p.name w.root))
    (hbound : writer.bound = true) {publication : Option α}
    (hpayload : p.payload = payloadOf codec publication)
    (hcount : p.units.length = objectCount codec config publication) :
    Tracks codec root config signer limit (publications ++ [publication]) (past ++ [p])
      { w with writer, node } where
  sameRoot := h.sameRoot
  published := hpublished
  writerConfig := hclient ▸ h.writerConfig
  writerSigner := hclient ▸ h.writerSigner
  payloads := by simp [h.payloads, hpayload]
  count := by
    rw [History.units_concat, List.length_append, List.map_append, List.sum_append, h.count,
      hcount]
    simp
  name := ⟨_, hname, Name.versionRoot_withVersion _ _⟩
  bound q hq := by
    rw [List.getLast?_concat, Option.some.injEq] at hq
    subst hq
    exact ⟨hname, hbound⟩
  readers := h.readers

/-- A saved value is published. -/
theorem save (h : Tracks codec root config signer limit publications past w)
    (hsigns : signer.Signs) (hroot : w.root.isVersioned = false) {value : α} {payload : Bytes}
    (hencode : codec.encode value = .ok payload)
    (hlimit : w.nextTime.ticks.toNat < versionLimit) (hfit : Stream.Fits config payload.length)
    (hroom : (publications.map (objectCount codec config)).sum
      + objectCount codec config (some value) ≤ config.bufferCapacity.toNat) :
    ∃ p, Tracks codec root config signer limit (publications ++ [some value]) (past ++ [p])
      (w.take codec (.save value)) := by
  -- taking a value changes neither the writer's client nor the node
  have hvalue : VersionedObject.Published w.root past (w.writer.set value) w.node :=
    { h.published with }
  have hcount : objectCount codec config (some value)
      = Stream.segmentCount config payload.length := by
    rw [objectCount, hencode]
  have hconfig : (w.writer.set value).client.config = config := h.writerConfig
  obtain ⟨name, hname, hversion⟩ := h.name
  have hsigner : (w.writer.set value).client.signer.Signs := h.writerSigner.symm ▸ hsigns
  obtain ⟨p, time, s', hsave, hpayload, hlen, hpublished⟩ := VersionedObject.saveTo_eq_ok hvalue
    hsigner hroot hlimit rfl rfl hencode (hconfig.symm ▸ hfit)
    (by rw [h.count, hconfig, ← hcount]; exact hroom)
  have hwriter : VersionedObject.Published w.root (past ++ [p])
      ({ w.writer.set value with
        copy := (w.writer.set value).copy.markSaved time }.bindTo (p.name w.root) false) s' :=
    { hpublished with }
  refine ⟨p, ?_⟩
  rw [take, VersionedObject.save_eq codec (show (w.writer.set value).name = some name from hname),
    hversion, hsave]
  refine h.concat hwriter rfl rfl rfl ?_ (by rw [hlen, hcount, hconfig])
  rw [hpayload, payloadOf, Option.bind_some, hencode]
  rfl

/-- A value without a payload is taken and not published. -/
theorem save_of_unencodable (h : Tracks codec root config signer limit publications past w)
    {value : α} {e : PayloadError} (hencode : codec.encode value = .error e) :
    Tracks codec root config signer limit publications past (w.take codec (.save value)) := by
  obtain ⟨name, hname, -⟩ := h.name
  have hsave : VersionedObject.save codec (w.writer.set value, w.node)
      = (.error (.marshal e), w.writer.set value, w.node) := by
    rw [VersionedObject.save_eq codec (show (w.writer.set value).name = some name from hname)]
    simp [VersionedObject.saveTo, VersionedObject.self, VersionedObject.set, WorkingCopy.set,
      Action.bind_run, hencode, mapError_error]
  rw [take, hsave]
  exact { h with published := { h.published with } }

/-- A tombstone is published. -/
theorem saveAsGone (h : Tracks codec root config signer limit publications past w)
    (hsigns : signer.Signs) (hroot : w.root.isVersioned = false)
    (hlimit : w.nextTime.ticks.toNat < versionLimit)
    (hroom : (publications.map (objectCount codec config)).sum + 1
      ≤ config.bufferCapacity.toNat) :
    ∃ p, Tracks codec root config signer limit (publications ++ [none]) (past ++ [p])
        (w.take codec .saveAsGone) := by
  obtain ⟨p, time, s', hsave, hpayload, hlen, hpublished⟩ := VersionedObject.saveAsGone_eq_ok
    h.published (h.writerSigner.symm ▸ hsigns) hroot hlimit
    (by rw [h.count, h.writerConfig]; exact hroom)
  have hwriter : VersionedObject.Published w.root (past ++ [p])
      ({ w.writer with copy := w.writer.copy.markSaved time }.bindTo (p.name w.root) true) s' :=
    { hpublished with }
  refine ⟨p, ?_⟩
  rw [take, hsave]
  exact h.concat hwriter rfl rfl rfl hpayload hlen

/-- Declaring the root of the writer's name gone is declaring the shared name gone. -/
theorem take_saveRootAsGone (h : Tracks codec root config signer limit publications past w) :
    w.take codec .saveRootAsGone = w.take codec .saveAsGone := by
  obtain ⟨name, hname, hversion⟩ := h.name
  rw [take, take, VersionedObject.saveRootAsGone_eq hname, hversion]

/-- What leaves every offer as it was does not matter. -/
theorem setNode (h : Tracks codec root config signer limit publications past w) {node : Node}
    (hnode : ∀ a, w.node.Offers a → node.Offers a) :
    Tracks codec root config signer limit publications past { w with node } :=
  { h with published := h.published.of_offers hnode }

/-- The readers change; each of them may follow. -/
theorem setReaders (h : Tracks codec root config signer limit publications past w)
    {readers : List (VersionedObject α)}
    (hreaders : ∀ r ∈ readers, r.client.reader.Suits config signer ∧ limit < r.client.readLimit
      ∧ ∃ name, r.name = some name ∧ name.versionRoot = w.root) :
    Tracks codec root config signer limit publications past { w with readers } :=
  { h with readers := hreaders }

/-- A reader that may follow comes in. -/
theorem join (h : Tracks codec root config signer limit publications past w)
    (hroot : w.root.isVersioned = false) {client : Client} (copy : WorkingCopy α)
    (hsuits : client.reader.Suits config signer) (hlimit : limit < client.readLimit) :
    Tracks codec root config signer limit publications past (w.take codec (.join client copy)) := by
  obtain ⟨reader, node, henter, hclient, hname, hnode⟩ := enter_eq_ok w.root client copy w.node
  rw [take, henter]
  refine (h.setNode hnode).setReaders fun r hr => ?_
  rcases List.mem_append.1 hr with hr | hr
  · exact h.readers r hr
  · rw [List.mem_singleton.1 hr, hclient]
    exact ⟨{ hsuits with }, hlimit, w.root, hname, Name.versionRoot_of_not_isVersioned hroot⟩

/-- A reader updates its object. -/
theorem update (h : Tracks codec root config signer limit publications past w)
    (hroot : w.root.isVersioned = false)
    (hlimit : (publications.map (objectCount codec config)).sum ≤ limit)
    {reader : VersionedObject α} (hreader : reader ∈ w.readers) :
    ∃ node, VersionedObject.update codec (reader, w.node)
        = ((reader.afterObserving codec (History.observed w.root past)).1,
            (reader.afterObserving codec (History.observed w.root past)).2, node)
      ∧ ∀ k, Tracks codec root config signer limit publications past { w with
          readers := w.readers.set k
            (reader.afterObserving codec (History.observed w.root past)).2
          node } := by
  obtain ⟨hsuits, hreads, name, hname, hversion⟩ := h.readers reader hreader
  obtain ⟨node, hupdate, hpublished⟩ := VersionedObject.update_eq_observed h.published hroot hname
    hversion (by rwa [h.writerConfig, h.writerSigner]) (by rw [h.count]; omega)
  refine ⟨node, hupdate, fun k => ?_⟩
  have hnode : Tracks codec root config signer limit publications past { w with node } :=
    { h with published := hpublished }
  refine hnode.setReaders fun r hr => ?_
  rcases List.mem_or_eq_of_mem_set hr with hr | rfl
  · exact h.readers r hr
  · rw [VersionedObject.afterObserving_client]
    refine ⟨hsuits, hreads, ?_⟩
    -- the client is the same, and the name is the one before or a version's
    obtain hsame | ⟨p, hp⟩ := VersionedObject.afterObserving_name codec reader w.root past
    · exact ⟨name, hsame.trans hname, hversion⟩
    · exact ⟨_, hp, Name.versionRoot_withVersion _ _⟩

/-- At the start nothing is published. -/
theorem start (hroot : root.isVersioned = false) {client : Client}
    (hconfig : client.config.Valid) (capacity : Nat) (clock : Timestamp) (copy : WorkingCopy α) :
    Tracks codec root client.config client.signer limit [] []
      (Sharing.start capacity clock root client copy) where
  sameRoot := rfl
  published :=
    { config := hconfig
      history := .nil
      offers := ⟨[], .inl rfl, Node.Offers.first capacity clock client.config.retry
        client.flowLimits⟩
      times := fun p hp => absurd hp List.not_mem_nil }
  writerConfig := rfl
  writerSigner := rfl
  payloads := rfl
  count := rfl
  name := ⟨root, rfl, Name.versionRoot_of_not_isVersioned hroot⟩
  bound p hp := absurd hp (by simp)
  readers r hr := absurd hr List.not_mem_nil

end Tracks

/-! ## Every update -/

/-- What the first step publishes is published first. -/
theorem published_cons (codec : PayloadCodec α) (step : Step α) (rest : List (Step α)) :
    published codec (step :: rest)
      = (step.publication codec).toList ++ published codec rest := by
  rw [published, List.filterMap_cons]
  cases step.publication codec <;> rfl

/-- A published value has a payload. -/
theorem exists_encode_of_mem_published {steps : List (Step α)} {value : α}
    (h : some value ∈ published codec steps) : ∃ payload, codec.encode value = .ok payload := by
  obtain ⟨step, -, hstep⟩ := List.mem_filterMap.1 h
  cases step with
  | save value' =>
    rw [Step.publication] at hstep
    cases hencode : codec.encode value' with
    | error e => simp [hencode, Except.toOption] at hstep
    | ok payload =>
      have hsame : value' = value := by simpa [hencode, Except.toOption] using hstep
      exact ⟨payload, hsame ▸ hencode⟩
  | _ => simp [Step.publication] at hstep

/-- **What a step keeps**: with what it publishes added, everything stands as after a run. -/
theorem Tracks.take {total : Nat} (hroot : root.isVersioned = false)
    (hsigns : signer.Signs) (h : Tracks codec root config signer total publications past w)
    {step : Step α}
    (hfits : ∀ value payload, step = .save value → codec.encode value = .ok payload →
      Stream.Fits config payload.length)
    (hroom : ((publications ++ (step.publication codec).toList).map
      (objectCount codec config)).sum ≤ total)
    (htotal : total ≤ config.bufferCapacity.toNat)
    (htime : step.publication codec ≠ none → w.nextTime.ticks.toNat < versionLimit)
    (hreader : ∀ client copy, step = .join client copy →
      client.reader.Suits config signer ∧ total < client.readLimit) :
    ∃ past, Tracks codec root config signer total
      (publications ++ (step.publication codec).toList) past (w.take codec step) := by
  have hunversioned : w.root.isVersioned = false := h.sameRoot ▸ hroot
  rw [List.map_append, List.sum_append] at hroom
  cases step with
  | setClock reading =>
    rw [Step.publication, Option.toList_none, List.append_nil]
    exact ⟨past, h.setNode fun a ha => ha.setClock reading⟩
  | save value =>
    cases hencode : codec.encode value with
    | error e =>
      have hnone : (Step.save value).publication codec = none := by
        rw [Step.publication, hencode]
        rfl
      rw [hnone, Option.toList_none, List.append_nil]
      -- the value is taken and stays unsaved
      exact ⟨past, h.save_of_unencodable hencode⟩
    | ok payload =>
      have hsome : (Step.save value).publication codec = some (some value) := by
        rw [Step.publication, hencode]
        rfl
      rw [hsome] at hroom htime ⊢
      obtain ⟨p, hp⟩ := h.save hsigns hunversioned hencode (htime nofun)
        (hfits value payload rfl hencode) (Nat.le_trans (by simpa using hroom) htotal)
      exact ⟨_, hp⟩
  | saveAsGone =>
    obtain ⟨p, hp⟩ := h.saveAsGone hsigns hunversioned (htime nofun) (Nat.le_trans hroom htotal)
    exact ⟨_, hp⟩
  | saveRootAsGone =>
    obtain ⟨p, hp⟩ := h.saveAsGone hsigns hunversioned (htime nofun) (Nat.le_trans hroom htotal)
    rw [h.take_saveRootAsGone]
    exact ⟨_, hp⟩
  | join client copy =>
    rw [Step.publication, Option.toList_none, List.append_nil]
    obtain ⟨hsuits, hlimit⟩ := hreader client copy rfl
    exact ⟨past, h.join hunversioned copy hsuits hlimit⟩
  | update k =>
    rw [Step.publication, Option.toList_none, List.append_nil, Sharing.take]
    split
    · exact ⟨past, h⟩
    · next reader hk =>
      obtain ⟨node, hupdate, hnode⟩ := h.update hunversioned
        (Nat.le_trans (Nat.le_add_right _ _) hroom) (List.mem_of_getElem? hk)
      rw [hupdate]
      exact ⟨past, hnode k⟩
  | get k i timeout =>
    rw [Step.publication, Option.toList_none, List.append_nil, Sharing.take]
    split
    · exact ⟨past, h⟩
    · exact ⟨past, h.setNode fun a ha => (ha.get _ i timeout).1⟩

/-- **What a run keeps**: with all that it publishes added, everything stands as it should. -/
theorem Tracks.run {total : Nat} (hroot : root.isVersioned = false) (hsigns : signer.Signs)
    (htotal : total ≤ config.bufferCapacity.toNat) {steps : List (Step α)}
    (h : Tracks codec root config signer total publications past w)
    (hfits : ∀ value payload, .save value ∈ steps → codec.encode value = .ok payload →
      Stream.Fits config payload.length)
    (hroom : ((publications ++ Sharing.published codec steps).map
      (objectCount codec config)).sum ≤ total)
    (htimes : Timely codec steps w)
    (hreaders : ∀ client copy, .join client copy ∈ steps →
      client.reader.Suits config signer ∧ total < client.readLimit) :
    ∃ past, Tracks codec root config signer total
      (publications ++ Sharing.published codec steps) past (Sharing.run codec steps w) := by
  induction steps generalizing publications past w with
  | nil =>
    rw [Sharing.published, List.filterMap_nil, List.append_nil]
    exact ⟨past, h⟩
  | cons step rest ih =>
    rw [published_cons, ← List.append_assoc] at hroom ⊢
    have hfirst : ((publications ++ (step.publication codec).toList).map
        (objectCount codec config)).sum ≤ total := by
      rw [List.map_append, List.sum_append] at hroom
      exact Nat.le_trans (Nat.le_add_right _ _) hroom
    obtain ⟨past₁, h₁⟩ := h.take hroot hsigns
      (fun value payload heq => hfits value payload (heq ▸ List.mem_cons_self)) hfirst htotal
      htimes.1 (fun client copy heq => hreaders client copy (heq ▸ List.mem_cons_self))
    -- the publications so far have grown by what the first step publishes
    exact ih h₁ (fun value payload hmem => hfits value payload (List.mem_cons_of_mem _ hmem)) hroom
      htimes.2 fun client copy hmem => hreaders client copy (List.mem_cons_of_mem _ hmem)

/-- **Every update observes the last publication.** After any admissible run of a writer and its
readers, whatever the content store keeps and whatever was asked for before, a reader that updates
its object observes just what the writer has published last. The steps before an update are such a
run, so this is about each update in one. -/
theorem update_observes_last (hcodec : codec.RoundTrips) (hroot : root.isVersioned = false)
    {client : Client} (hconfig : client.config.Valid) (capacity : Nat) (clock : Timestamp)
    (copy : WorkingCopy α) {steps : List (Step α)}
    (hsteps : Admissible codec (start capacity clock root client copy) steps)
    {w : Sharing α} (hw : run codec steps (start capacity clock root client copy) = w)
    {reader : VersionedObject α} (hreader : reader ∈ w.readers) :
    w.Observes reader (VersionedObject.update codec (reader, w.node))
      (published codec steps).getLast? := by
  obtain ⟨past, h⟩ := (Tracks.start hroot hconfig capacity clock copy).run hroot hsteps.signs
    hsteps.room hsteps.fits (Nat.le_refl _) hsteps.times hsteps.readers
  rw [hw, List.nil_append] at h
  obtain ⟨node, hupdate, -⟩ := h.update (h.sameRoot ▸ hroot) (Nat.le_refl _) hreader
  rw [hupdate]
  -- versions and publications go together, and so do the last ones
  have hlast : past.getLast?.map (·.payload)
      = (published codec steps).getLast?.map (payloadOf codec) := by
    rw [← List.getLast?_map, h.payloads, List.getLast?_map]
  cases hpublished : (published codec steps).getLast? with
  | none =>
    rw [hpublished, Option.map_none, Option.map_eq_none_iff] at hlast
    rw [History.observed, hlast]
    exact ⟨rfl, rfl⟩
  | some publication =>
    rw [hpublished, Option.map_some, Option.map_eq_some_iff] at hlast
    obtain ⟨p, hp, hpayload⟩ := hlast
    obtain ⟨hname, hbound⟩ := h.bound p hp
    cases publication with
    | none =>
      have hobserved : History.observed w.root past = .error (.gone (p.name w.root)) := by
        rw [History.observed, hp]
        simp only [hpayload, payloadOf, Option.bind_none]
      rw [hobserved]
      exact ⟨rfl, hbound, hname.symm, rfl⟩
    | some value =>
      obtain ⟨payload, hencode⟩ := exists_encode_of_mem_published
        (List.mem_of_getLast? hpublished)
      have hobserved : History.observed w.root past
          = .ok ⟨p.name w.root, payload, p.units.length⟩ := by
        rw [History.observed, hp]
        simp only [hpayload, payloadOf, Option.bind_some, hencode, Except.toOption]
      rw [hobserved]
      -- the codec gives the value back, and the reader takes it over
      simp only [VersionedObject.afterObserving, hcodec value payload hencode]
      exact ⟨rfl, hbound, hname.symm, rfl, rfl⟩

/-- A reader asks before anything is published, and again after a save and a tombstone. -/
theorem update_observes_last_tombstone :
    let codec : PayloadCodec Unit := ⟨fun _ => .ok [], fun _ => .ok ()⟩
    let client : Client := ⟨default, .echo, .echo, {}, 3⟩
    let w := run codec [.join client .empty, .update 0, .save (), .saveAsGone]
      (start 0 ⟨0⟩ ⟨[⟨[1]⟩]⟩ client .empty)
    w.readers.length = 1 ∧ ∀ reader ∈ w.readers,
      w.Observes reader (VersionedObject.update codec (reader, w.node)) (some none) := by
  intro codec client w
  have hsuits : client.reader.Suits client.config client.signer :=
    ⟨⟨rfl, rfl⟩, by decide, by decide, fun _ => Verifier.echo_trusts⟩
  have hsteps : Admissible codec (start 0 ⟨0⟩ ⟨[⟨[1]⟩]⟩ client .empty)
      [.join client .empty, .update 0, .save (), .saveAsGone] := by
    refine ⟨Signer.signs_echo, fun _ payload _ hpayload => ?_, by decide, ?_,
      fun c copy hjoin => ?_⟩
    · rw [← Except.ok.inj hpayload]
      decide
    · exact ⟨nofun, nofun, fun _ => by decide +kernel, fun _ => by decide +kernel, trivial⟩
    · have hclient : c = client ∧ copy = .empty := by simpa using hjoin
      rw [hclient.1]
      exact ⟨hsuits, by decide⟩
  refine ⟨by decide +kernel, fun reader hreader => ?_⟩
  exact update_observes_last (fun _ _ _ => rfl) (by decide) (by decide) 0 ⟨0⟩ .empty hsteps rfl
    hreader

end Sharing

end NamedContent
