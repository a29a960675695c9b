import Pyjamaz.Accumulation.MergedViews
import Pyjamaz.HostCalls.Footprint

/-!
# Preimages and their requests

A preimage may lie in an account only under its own hash and when it has been requested there, and the
history of a request tells when the preimage came and went.  Preimages and histories are kept in two
maps with different keys, and host calls, the merge, provisions and blocks all change them.

`preimages_kept` says that each of them keeps the preimages of a service sound, and lets a request move
only along its life cycle.  As for footprints, the counters of the account have to be right, for
otherwise an ejection leaves entries about; and no request of `2 ^ 32 - 2` or more bytes may be involved.
The history of such a request shares its place in the store with a preimage or with a storage item, so
that a service can write the history itself (`sampleWrite_forges_history`).
-/

namespace HostCalls

open Accumulation Services Octets

variable {coreCount : ℕ}

/-! ## Pending preimages -/

section Pending

variable {env : Environment} {timeslot : ℕ} {c c' : AccumulateContextItem coreCount}

lemma filedPreimages_remove {P : Primitives} {st : ServicesState}
    (h : FiledPreimages P st.pendingChanges) (s : ℕ) (preimageHash : Octets32) :
    FiledPreimages P (st.setPendingPreimage s preimageHash none).pendingChanges := by
  intro t preimageHash' blob hget
  change (st.pendingChanges.preimages.insert (s, preimageHash) none).get? (t, preimageHash') =
    some (some blob) at hget
  rw [Dict.get?_insert] at hget
  split at hget
  · cases hget
  · exact h t preimageHash' blob hget

/-- Host calls make no preimage pending; they only remove some. -/
lemma Effect.filedPreimages {P : Primitives} (h : Effect env timeslot c c')
    (hfiled : FiledPreimages P c.services.pendingChanges) :
    FiledPreimages P c'.services.pendingChanges := by
  cases h with
  | quiet _ hservices => rwa [hservices]
  | create => exact hfiled
  | upgrade => exact hfiled
  | transfer => exact hfiled
  | @eject _ _ d preimageHash => exact filedPreimages_remove hfiled d preimageHash
  | request => exact hfiled
  | renew => exact hfiled
  | retire => exact hfiled
  | @forget _ preimageHash => exact filedPreimages_remove hfiled c.serviceAccountId preimageHash
  | write => exact hfiled

lemma Calls.filedPreimages {P : Primitives} {x x' : AccumulateInvocationContext coreCount}
    (h : Calls env x x') (hfiled : FiledPreimages P x.services.pendingChanges)
    (hsaved : FiledPreimages P x.savepointContext.services.pendingChanges) :
    FiledPreimages P x'.services.pendingChanges ∧
      FiledPreimages P x'.savepointContext.services.pendingChanges :=
  (h.preserves (Q := fun c => FiledPreimages P c.services.pendingChanges)
    (fun _ _ heffect => heffect.filedPreimages) hfiled hsaved).2

lemma creditAndLookup_preimages {services services' : ServicesState} {service : ℕ}
    {inputs : List AccumulationInput} {code : Option Octets}
    (h : creditAndLookup services service inputs = .ok (services', code)) :
    services'.pendingChanges.preimages = services.pendingChanges.preimages := by
  rcases creditAndLookup_cases h with ⟨-, rfl, -⟩ | ⟨account, -, rfl | ⟨-, rfl⟩, -⟩
  · rfl
  · rfl
  · rfl

/-- An invocation that starts without pending preimages returns none. -/
lemma Invoked.filedPreimages {P : Primitives} {state : AccumulationStateComponents coreCount}
    {service : ℕ} {visible : ServicesState} (h : Invoked env timeslot state service visible)
    (hfiled : FiledPreimages P state.services.pendingChanges) :
    FiledPreimages P visible.pendingChanges := by
  have hcredited : ∀ {inputs : List AccumulationInput} {services : ServicesState}
      {code : Option Octets}, creditAndLookup state.services service inputs = .ok (services, code) →
        FiledPreimages P services.pendingChanges := by
    intro inputs services code hcredit s preimageHash blob hget
    rw [creditAndLookup_preimages hcredit] at hget
    exact hfiled s preimageHash blob hget
  cases h with
  | credited hcredit => exact hcredited hcredit
  | called hcredit hcreate hcalls hvisible =>
    obtain ⟨-, hservices, hsaved⟩ := createFromAccumulationState_eq hcreate
    obtain ⟨hcontext, hsavepoint⟩ := hcalls.filedPreimages
      (by rw [hservices]; exact hcredited hcredit) (by rw [hsaved]; exact hcredited hcredit)
    rcases hvisible with rfl | rfl
    · exact hcontext
    · exact hsavepoint

end Pending

/-! ## Rounds of invocations -/

section Rounds

variable {env : Environment} {timeslot : ℕ} {state : AccumulationStateComponents coreCount}

/-- `pvm_invoke_accumulate` as a round calls it; the number that the next free id is searched from
depends on the service. -/
def pvmInvoke {σ : Type} (env : Environment) (M : Interpreter coreCount σ) (checkPayload : ℕ → ℕ)
    (timeslot fuel : ℕ) : Invoke coreCount :=
  fun state service gasLimit inputs =>
    match pvmInvokeAccumulate env M (checkPayload service) timeslot fuel state service gasLimit
      inputs with
    | some (.ok output) => some output
    | _ => none

/-- The outputs of a round are those of invocations that started without pending changes. -/
lemma runServices_outcome {σ : Type} {M : Interpreter coreCount σ} {checkPayload : ℕ → ℕ}
    {fuel : ℕ} {input : RoundInput} {services : List ℕ} {outputs : Outputs coreCount}
    (h : runServices (pvmInvoke env M checkPayload timeslot fuel) state input services =
      some outputs) :
    outputs.map Prod.fst = services ∧
      ∀ p ∈ outputs, Outcome env timeslot { state with services := state.services.fresh } p.1
        (input.inputsFor p.1) p.2 := by
  obtain ⟨hids, hsteps⟩ := runServices_eq_some h
  refine ⟨hids, fun p hp => ?_⟩
  have hstep := hsteps p hp
  unfold singleStepAccumulation pvmInvoke at hstep
  split at hstep
  · next output hreturn =>
    cases hstep
    exact pvmInvokeAccumulate_outcome hreturn
  · cases hstep

lemma runServices_invoked {σ : Type} {M : Interpreter coreCount σ} {checkPayload : ℕ → ℕ}
    {fuel : ℕ} {input : RoundInput} {services : List ℕ} {outputs : Outputs coreCount}
    (h : runServices (pvmInvoke env M checkPayload timeslot fuel) state input services =
      some outputs) :
    outputs.map Prod.fst = services ∧
      ∀ p ∈ outputs, Invoked env timeslot { state with services := state.services.fresh } p.1
        p.2.stateContext.services :=
  (runServices_outcome h).imp_right (fun houtcome p hp => (houtcome p hp).invoked)

lemma pendingNonneg_fresh (st : ServicesState) : PendingNonneg st.fresh := nofun

/-- A round changes a service only in the ways that `View.Change` lists. -/
lemma finishRound_invoked {outputs : Outputs coreCount} {out : ParallelAccumulationOutput coreCount}
    {s : ℕ} (hcoherent : Coherent env.primitives state.services)
    (hfooted : (state.services.view env.primitives s).WellFooted)
    (hsound : (state.services.view env.primitives s).PreimageSound env.primitives timeslot)
    (hnodup : (outputs.map Prod.fst).Nodup)
    (hinvoked : ∀ p ∈ outputs, Invoked env timeslot
      { state with services := state.services.fresh } p.1 p.2.stateContext.services)
    (hshort : ∀ p ∈ outputs, p.2.pending.ShortRequestsOf s)
    (hlength : ∀ p ∈ provisionsOf outputs, p.1 = s → p.2.length < 2 ^ 32 - 2)
    (h : finishRound env.primitives timeslot state outputs = .ok out) :
    (state.services.view env.primitives s).Changes env.primitives timeslot env.expungePeriod
      (out.accumulationState.services.view env.primitives s) := by
  have hderived : ∀ p ∈ outputs,
      Derived env timeslot state.services.fresh p.2.stateContext.services :=
    fun p hp => (hinvoked p hp).derived (pendingNonneg_fresh _)
  refine finishRound_changes hcoherent hfooted hsound hnodup
    (fun p hp => (hderived p hp).stateStorage)
    (fun p hp => (hinvoked p hp).filedPreimages nofun) hshort hlength ?_ h
  intro p hp
  rw [← view_fresh hcoherent]
  exact (hderived p hp).changes s (hshort p hp)

end Rounds

/-! ## Preimages that are kept sound -/

/-- The preimages of a service stay sound and its footprint right, and its requests have moved along
their life cycle. -/
structure PreimagesKept (env : Environment) (timeslot : ℕ) (v v' : View) : Prop where
  sound : v'.PreimageSound env.primitives timeslot
  footed : v'.WellFooted
  lifecycle : ∀ r, Lifecycle timeslot env.expungePeriod (v.request r) (v'.request r)

lemma PreimagesKept.of_changes {env : Environment} {timeslot : ℕ} {v v' : View}
    (hsound : v.PreimageSound env.primitives timeslot) (hfooted : v.WellFooted)
    (h : v.Changes env.primitives timeslot env.expungePeriod v') :
    PreimagesKept env timeslot v v' :=
  ⟨hsound.changes h, hfooted.changes h, fun r => h.lifecycle hfooted r⟩

/-- Host calls in any order, a round of accumulation with its merge and its provisions, and the
preimages extrinsic keep the preimages of every service sound, and its requests move along their life
cycle, where no request or preimage of the service has `2 ^ 32 - 2` or more bytes. -/
theorem preimages_kept (env : Environment) {lastSlot timeslot : ℕ} (hslot : lastSlot ≤ timeslot) :
    (∀ (state : AccumulationStateComponents coreCount) (service checkPayload : ℕ)
      (inputs : List AccumulationInput) (services visible : ServicesState) (code : Octets)
      (x₀ x : AccumulateInvocationContext coreCount) (s : ℕ), PendingNonneg state.services →
      creditAndLookup state.services service inputs = .ok (services, some code) →
      createFromAccumulationState env { state with services := services } service checkPayload
        timeslot = .ok x₀ → Calls env x₀ x →
      (visible = x.services ∨ visible = x.savepointContext.services) →
      visible.pendingChanges.ShortRequestsOf s →
      (state.services.view env.primitives s).PreimageSound env.primitives lastSlot →
      (state.services.view env.primitives s).WellFooted →
        PreimagesKept env timeslot (state.services.view env.primitives s)
          (visible.view env.primitives s)) ∧
    (∀ (σ : Type) (M : Interpreter coreCount σ) (checkPayload : ℕ → ℕ) (fuel : ℕ)
      (state : AccumulationStateComponents coreCount) (input : RoundInput)
      (outputs : Outputs coreCount) (out : ParallelAccumulationOutput coreCount) (s : ℕ),
      Coherent env.primitives state.services →
      runServices (pvmInvoke env M checkPayload timeslot fuel) state input input.serviceIds =
        some outputs →
      parallelAccumulation env.primitives timeslot (pvmInvoke env M checkPayload timeslot fuel) state
        input = .ok out →
      (∀ p ∈ outputs, p.2.pending.ShortRequestsOf s) →
      (∀ p ∈ provisionsOf outputs, p.1 = s → p.2.length < 2 ^ 32 - 2) →
      (state.services.view env.primitives s).PreimageSound env.primitives lastSlot →
      (state.services.view env.primitives s).WellFooted →
        PreimagesKept env timeslot (state.services.view env.primitives s)
          (out.accumulationState.services.view env.primitives s)) ∧
    ∀ (extrinsicPreimages : List (ℕ × Octets)) (st st' : ServicesState) (s : ℕ),
      stateTransitionAfterPreimages env.primitives timeslot extrinsicPreimages st = .ok st' →
      (∀ p ∈ extrinsicPreimages, p.1 = s → p.2.length < 2 ^ 32 - 2) →
      (st.view env.primitives s).PreimageSound env.primitives lastSlot →
      (st.view env.primitives s).WellFooted →
        PreimagesKept env timeslot (st.view env.primitives s) (st'.view env.primitives s) := by
  refine ⟨?_, ?_, ?_⟩
  · intro state service checkPayload inputs services visible code x₀ x s hnonneg hcredit hcreate
      hcalls hvisible hshort hsound hfooted
    have hinvoked : Invoked env timeslot state service visible :=
      .called hcredit hcreate hcalls hvisible
    exact .of_changes (hsound.mono hslot) hfooted ((hinvoked.derived hnonneg).changes s hshort)
  · intro σ M checkPayload fuel state input outputs out s hcoherent hrun hround hshort hlength hsound
      hfooted
    obtain ⟨outputs', hrun', hfinish⟩ := parallelAccumulation_eq_ok hround
    cases hrun.symm.trans hrun'
    obtain ⟨hids, hinvoked⟩ := runServices_invoked hrun
    have hnodup : (outputs.map Prod.fst).Nodup := by
      rw [hids]
      exact nodup_sortedSet _
    exact .of_changes (hsound.mono hslot) hfooted (finishRound_invoked hcoherent hfooted
      (hsound.mono hslot) hnodup hinvoked hshort hlength hfinish)
  · intro extrinsicPreimages st st' s h hlength hsound hfooted
    exact .of_changes (hsound.mono hslot) hfooted (afterPreimages_changes hlength h)

/-! ## A service that requests a preimage -/

/-- The hash of a blob repeats its first byte. -/
def sampleHashing : Environment :=
  { sampleEnvironment with primitives := .ofHash fun blob => Vector.replicate 32 (blob.headD 0) }

/-- Service 5 with a footprint of one request. -/
def sampleCoded : ServiceAccount :=
  { sampleAccount with footprintStorageItems := 2, footprintStorageBytes := 82 }

/-- The store has service 5 with its code, a preimage of one byte that came in at slot 0. -/
def sampleStore : Store :=
  .init ((((∅ : Dict StateKey Octets).insert (accountKind.key 5)
    (sampleCoded.toSerializedBytes.getD [])).insert (preimageKind.key (5, Vector.replicate 32 1))
    [1]).insert ((availabilityKind sampleHashing.primitives).key (5, Vector.replicate 32 1, 1))
    [1, 0, 0, 0, 0])

def sampleStored : AccumulationStateComponents 0 :=
  { sampleState with services := ⟨sampleStore, .empty, ∅⟩ }

/-- A program that requests a preimage. -/
def sampleSolicitor : Interpreter 0 ℕ where
  load _ _ _ _ := some 0
  invoke m gas :=
    match m with
    | 0 => (.hostHalt 24, gas - 1, m)
    | _ => (.halt [], gas - 1, m)
  registers _ := sampleSolicitRegisters
  memory _ := sampleMemory
  resume m _ := m + 1
  general _ _ _ _ := .error .memory
  invoke_gas := by
    intro m gas
    split
    · exact max_le_max (by dsimp only; omega) le_rfl
    · exact max_le_max (by dsimp only; omega) le_rfl
  general_gas := @raised_gas

/-- Service 5 may accumulate. -/
def sampleTurn : RoundInput := ⟨[], [], Dict.insert ∅ 5 10000⟩

/-- There is nothing else in the store. -/
lemma sampleStore_read {key : StateKey} (haccount : key ≠ accountKind.key 5)
    (hpreimage : key ≠ preimageKind.key (5, Vector.replicate 32 1))
    (hrequest : key ≠ (availabilityKind sampleHashing.primitives).key
      (5, Vector.replicate 32 1, 1)) : sampleStore.read key = .ok none := by
  have hraw : ∀ engine : Dict StateKey Octets, Store.read (.init engine) key = .ok (engine.get? key) :=
    fun _ => rfl
  rw [sampleStore, hraw, Dict.get?_insert_of_ne _ hrequest, Dict.get?_insert_of_ne _ hpreimage,
    Dict.get?_insert_of_ne _ haccount, Dict.get?_empty]

/-- Keys of different kinds. -/
lemma key_ne_of_keyClass {key key' : StateKey} (h : key.keyClass ≠ key'.keyClass) : key ≠ key' :=
  fun heq => h (congrArg _ heq)

lemma sampleStored_items (key : Octets) :
    (sampleStored.services.view sampleHashing.primitives 5).storageItem key = none := by
  have hfits : storageItemKind.Fits (5, key) := show 5 < 2 ^ 32 by decide
  have hclass : (storageItemKind.key (5, key)).keyClass = .storageItem :=
    storageItemKind.keyClass_key hfits
  have hread : sampleStore.read (storageItemKind.key (5, key)) = .ok none :=
    sampleStore_read (key_ne_of_keyClass (by rw [hclass]; decide))
      (key_ne_of_keyClass (by rw [hclass]; decide)) (key_ne_of_keyClass (by rw [hclass]; decide))
  have hstored : sampleStore.storageItem 5 key = .error .noResult :=
    storageItemKind.stored_none hfits hread
  exact congrArg Except.toOption hstored

lemma sampleStored_preimage {preimageHash : Octets32} (hne : preimageHash ≠ Vector.replicate 32 1) :
    (sampleStored.services.view sampleHashing.primitives 5).preimage preimageHash = none := by
  have hfits : ∀ preimageHash, preimageKind.Fits (5, preimageHash) :=
    fun _ => show 5 < 2 ^ 32 by decide
  have hclass : (preimageKind.key (5, preimageHash)).keyClass = .preimage :=
    preimageKind.keyClass_key (hfits preimageHash)
  have hread : sampleStore.read (preimageKind.key (5, preimageHash)) = .ok none := by
    refine sampleStore_read (key_ne_of_keyClass (by rw [hclass]; decide)) ?_
      (key_ne_of_keyClass (by rw [hclass]; decide))
    intro heq
    have hkey : (5, preimageHash) = (5, Vector.replicate 32 1) :=
      preimageKind.key_inj (hfits _) (hfits _) heq
    exact hne (congrArg Prod.snd hkey)
  have hstored : sampleStore.preimage 5 preimageHash = .error .noResult :=
    preimageKind.stored_none (hfits preimageHash) hread
  exact congrArg Except.toOption hstored

lemma sampleStored_request :
    (sampleStored.services.view sampleHashing.primitives 5).request =
      Function.update (fun _ => none) (Vector.replicate 32 1, 1) (some [0]) := by
  funext r
  by_cases hr : r = (Vector.replicate 32 1, 1)
  · subst hr
    rw [Function.update_self]
    rfl
  · rw [Function.update_of_ne hr]
    change (if r.2 < 2 ^ 32 - 2 then _ else none) = none
    split
    · next hshort =>
      have hfits : (availabilityKind sampleHashing.primitives).Fits (5, r) :=
        ⟨hshort, show 5 < 2 ^ 32 by decide⟩
      have hclass := (availabilityKind sampleHashing.primitives).keyClass_key hfits
      have hread : sampleStore.read ((availabilityKind sampleHashing.primitives).key (5, r)) =
          .ok none := by
        refine sampleStore_read (key_ne_of_keyClass (by rw [hclass]; decide))
          (key_ne_of_keyClass (by rw [hclass]; decide)) ?_
        intro heq
        have hkey : (5, r) = (5, Vector.replicate 32 1, 1) :=
          (availabilityKind sampleHashing.primitives).key_inj hfits ⟨by decide, by decide⟩ heq
        exact hr (congrArg Prod.snd hkey)
      have hstored : sampleStore.preimageAvailability sampleHashing.primitives 5 r.1 r.2 =
          .error .noResult :=
        (availabilityKind sampleHashing.primitives).stored_none (k := (5, r)) hfits hread
      rw [retrievePreimageAvailability_eq_read, if_pos ⟨by decide, by omega⟩]
      exact congrArg Except.toOption hstored
    · rfl

lemma sampleStored_footed :
    (sampleStored.services.view sampleHashing.primitives 5).WellFooted := by
  have haccount : sampleStored.services.retrieveServiceAccount 5 = .ok sampleCoded := rfl
  refine ⟨?_, fun key h => ?_, fun h => ?_⟩
  · intro a ha
    cases haccount.symm.trans ha
    have hone := (Footprint.of_none (fun _ => rfl) (fun _ => rfl)).setRequest
      ((Vector.replicate 32 1, 1) : Octets32 × ℕ) (some [0])
    rw [sampleStored_request, funext sampleStored_items]
    exact hone
  · rw [sampleStored_items] at h
    cases h
  · cases haccount.symm.trans h

lemma sampleStored_sound :
    (sampleStored.services.view sampleHashing.primitives 5).PreimageSound sampleHashing.primitives
      0 := by
  constructor
  · intro preimageHash blob hblob
    by_cases hhash : preimageHash = Vector.replicate 32 1
    · subst hhash
      obtain rfl : [1] = blob := Option.some.inj hblob
      refine ⟨rfl, ?_⟩
      rw [sampleStored_request]
      exact Option.ne_none_iff_exists'.mpr ⟨[0], Function.update_self _ _ _⟩
    · rw [sampleStored_preimage hhash] at hblob
      cases hblob
  · intro r history hhistory
    rw [sampleStored_request] at hhistory
    by_cases hr : r = (Vector.replicate 32 1, 1)
    · rw [hr, Function.update_self] at hhistory
      cases hhistory
      exact ⟨by decide, by decide, by decide⟩
    · rw [Function.update_of_ne hr] at hhistory
      cases hhistory

/-- Service 5 requests a preimage of one byte, by a host call or in a round, and it comes with the
block: what service 5 has stays sound. -/
theorem sampleSolicitor_keeps_preimages :
    ∃ x out st', Calls sampleHashing (sampleContext sampleStored.services) x ∧
      parallelAccumulation sampleHashing.primitives 1
        (pvmInvoke sampleHashing sampleSolicitor (fun _ => 0) 1 3) sampleStored sampleTurn = .ok out ∧
      stateTransitionAfterPreimages sampleHashing.primitives 1 [(5, [0])] x.services = .ok st' ∧
      PreimagesKept sampleHashing 1 (sampleStored.services.view sampleHashing.primitives 5)
        (x.services.view sampleHashing.primitives 5) ∧
      PreimagesKept sampleHashing 1 (sampleStored.services.view sampleHashing.primitives 5)
        (out.accumulationState.services.view sampleHashing.primitives 5) ∧
      PreimagesKept sampleHashing 1 (x.services.view sampleHashing.primitives 5)
        (st'.view sampleHashing.primitives 5) := by
  obtain ⟨hruns, hrounds, -⟩ := @preimages_kept 0 sampleHashing 0 1 (by decide)
  obtain ⟨-, -, hpreimages⟩ := @preimages_kept 0 sampleHashing 1 1 (by decide)
  -- the request of service 5 is the only one that is pending
  have honly : ∀ {pending : PendingChanges}, pending.preimagesAvailability =
      Dict.insert ∅ (5, Vector.replicate 32 0, 1) (some []) → pending.ShortRequestsOf 5 :=
    fun hpending => PendingChanges.shortRequestsOf_of_single hpending (by decide)
  have hcall : ∃ out x st', execute sampleHashing .solicit 10000 sampleSolicitRegisters sampleMemory
      (sampleContext sampleStored.services) = .ok (out, x) ∧
      x.services.pendingChanges.preimagesAvailability =
        Dict.insert ∅ (5, Vector.replicate 32 0, 1) (some []) ∧
      stateTransitionAfterPreimages sampleHashing.primitives 1 [(5, [0])] x.services = .ok st' :=
    ⟨_, _, _, rfl, rfl, rfl⟩
  obtain ⟨out, x, st', hcall, hpending, hst'⟩ := hcall
  have hcalls : Calls sampleHashing (sampleContext sampleStored.services) x := .call (.none _) hcall
  have hround : ∃ o out, runServices (pvmInvoke sampleHashing sampleSolicitor (fun _ => 0) 1 3)
        sampleStored sampleTurn sampleTurn.serviceIds = some [(5, o)] ∧
      parallelAccumulation sampleHashing.primitives 1
        (pvmInvoke sampleHashing sampleSolicitor (fun _ => 0) 1 3) sampleStored sampleTurn = .ok out ∧
      o.pending.preimagesAvailability = Dict.insert ∅ (5, Vector.replicate 32 0, 1) (some []) ∧
      o.preimages = [] := ⟨_, _, rfl, rfl, rfl, rfl⟩
  obtain ⟨o, round, hrun, hround, hround_pending, hnone⟩ := hround
  have hkept : PreimagesKept sampleHashing 1 (sampleStored.services.view sampleHashing.primitives 5)
      (x.services.view sampleHashing.primitives 5) :=
    hruns sampleStored 5 0 [] sampleStored.services x.services [1]
      (sampleContext sampleStored.services) x 5 (pendingNonneg_fresh sampleStored.services) rfl rfl
      hcalls (.inl rfl) (honly hpending)
      sampleStored_sound sampleStored_footed
  refine ⟨x, round, st', hcalls, hround, hst', hkept, ?_, ?_⟩
  · refine hrounds ℕ sampleSolicitor (fun _ => 0) 3 sampleStored sampleTurn [(5, o)] round 5
      (coherent_fresh _ sampleStored.services) hrun hround ?_ ?_ sampleStored_sound
      sampleStored_footed
    · intro p hp
      cases List.mem_singleton.mp hp
      exact honly hround_pending
    · intro p hp
      have hprovisions : provisionsOf [(5, o)] = o.preimages := List.append_nil _
      rw [hprovisions, hnone] at hp
      cases hp
  · exact hpreimages [(5, [0])] x.services st' 5 hst' (by simp) hkept.sound hkept.footed

/-! ## Histories that are forged or cut off -/

/-- Every stored preimage lies under its hash and has been requested, and every history is sound,
whatever the length of its preimage. -/
structure PreimagesSound (P : Primitives) (timeslot : ℕ) (st : ServicesState) : Prop where
  preimages : ∀ s preimageHash blob, st.retrievePreimage s preimageHash = .ok blob →
    P.blake2b256Hash blob = preimageHash ∧
      ∃ history, st.retrievePreimageAvailability P s preimageHash blob.length = .ok history
  histories : ∀ s preimageHash z history,
    st.retrievePreimageAvailability P s preimageHash z = .ok history → HistorySound timeslot history

/-- The store has an account for service 5 and nothing else. -/
def sampleWriter : ServicesState :=
  ⟨.init (Dict.insert ∅ (accountKind.key 5) (sampleAccount.toSerializedBytes.getD [])), .empty,
    ∅⟩

/-- All of the memory is zero but for one byte, which is 4. -/
def sampleForgery : Memory := ⟨fun _ => true, fun address => if address = 69632 then 4 else 0⟩

/-- The registers to write the 17 bytes from there on under a key of 32 zeros. -/
def sampleForgeryRegisters : Registers := #v[0, 0, 0, 0, 0, 0, 0, 65536, 32, 69632, 17, 0, 0]

/-- Service 5 is rich; a history lies at the id 65536, which has no account. -/
def sampleLeft : ServicesState :=
  ⟨.init ∅, ⟨Dict.insert ∅ 5 (some { sampleAccount with balance := 100000 }), ∅, ∅,
    Dict.insert ∅ (2 ^ 16, Vector.replicate 32 0, 1) (some [0])⟩, ∅⟩

/-- A store without the values of services holds no preimages. -/
lemma not_preimage_of_unread {st : ServicesState}
    (hread : ∀ s value, Store.read st.stateStorage (.serviceValue s value) = .ok none) (s : ℕ)
    (preimageHash : Octets32) : (∀ blob, st.stateStorage.preimage s preimageHash ≠ .ok blob) ∧
      ∀ P z history, st.stateStorage.preimageAvailability P s preimageHash z ≠ .ok history := by
  constructor
  · intro blob h
    rw [Store.preimage_eq, hread] at h
    split at h
    · cases h
    · cases h
  · intro P z history h
    rw [Store.preimageAvailability_eq, hread] at h
    split at h
    · cases h
    · cases h

lemma sampleWriter_sound : PreimagesSound sampleEnvironment.primitives 1 sampleWriter := by
  have hread : ∀ s value, Store.read sampleWriter.stateStorage (.serviceValue s value) = .ok none := by
    intro s value
    have hraw : Store.read sampleWriter.stateStorage (.serviceValue s value) =
        .ok ((Dict.insert (∅ : Dict StateKey Octets) (.serviceAccount 5)
          (sampleAccount.toSerializedBytes.getD [])).get? (.serviceValue s value)) := rfl
    have hne : StateKey.serviceValue s value ≠ .serviceAccount 5 := nofun
    rw [hraw, Dict.get?_insert_of_ne _ hne, Dict.get?_empty]
  constructor
  · intro s preimageHash blob h
    exact absurd h ((not_preimage_of_unread hread s preimageHash).1 blob)
  · intro s preimageHash z history h
    rw [retrievePreimageAvailability_eq_read] at h
    split at h
    · exact absurd h ((not_preimage_of_unread hread s preimageHash).2 _ z history)
    · cases h

lemma sampleLeft_sound : PreimagesSound sampleEnvironment.primitives 1 sampleLeft := by
  have hread : ∀ s value, Store.read sampleLeft.stateStorage (.serviceValue s value) = .ok none :=
    fun _ _ => rfl
  constructor
  · intro s preimageHash blob h
    exact absurd h ((not_preimage_of_unread hread s preimageHash).1 blob)
  · intro s preimageHash z history h
    rw [retrievePreimageAvailability_eq_read] at h
    split at h
    · by_cases hk : (s, preimageHash, z) = (2 ^ 16, Vector.replicate 32 0, 1)
      · rw [hk] at h
        cases h
        exact ⟨by decide, by decide, by decide⟩
      · have hget : sampleLeft.pendingChanges.preimagesAvailability.get? (s, preimageHash, z) = none :=
          Dict.get?_insert_of_ne _ hk _
        change readOverlay (sampleLeft.pendingChanges.preimagesAvailability.get? _)
          (sampleLeft.stateStorage.preimageAvailability _ s preimageHash z) = .ok history at h
        rw [hget] at h
        exact absurd h ((not_preimage_of_unread hread s preimageHash).2 _ z history)
    · cases h

/-- At slot 1 nothing is old enough to be dropped, and a history that is not empty stays so. -/
lemma not_lifecycle_to_nil {v : Option (List ℕ)}
    (h : Lifecycle 1 sampleEnvironment.expungePeriod (some [0]) v) : v ≠ some [] ∧ v ≠ none := by
  induction h with
  | refl => exact ⟨nofun, nofun⟩
  | tail _ hstep ih =>
    cases hstep with
    | requested => exact absurd rfl ih.2
    | provided => exact absurd rfl ih.1
    | forgotten x => exact ⟨nofun, nofun⟩
    | renewed x y => exact ⟨nofun, nofun⟩
    | retired x y z h => exact ⟨nofun, nofun⟩
    | dropped => exact absurd rfl ih.1
    | expunged x y h =>
      have hperiod : sampleEnvironment.expungePeriod = 32 := rfl
      omega

set_option maxRecDepth 20000 in
/-- All preimages are sound.  A storage item of service 5, once it is in the store, is the history of a
request of `2 ^ 32 - 1` bytes, and has four timeslots; and a new account at 65536 starts the history
that lies there from the beginning. -/
theorem sampleWrite_forges_history :
    (PreimagesSound sampleEnvironment.primitives 1 (sampleContext sampleWriter).services ∧
      ∃ x out, Calls sampleEnvironment (sampleContext sampleWriter) x ∧
        finishRound sampleEnvironment.primitives 1 { sampleState with services := sampleWriter }
          [(5, x.context.toOutput none 0)] = .ok out ∧
        ¬ PreimagesSound sampleEnvironment.primitives 1 out.accumulationState.services) ∧
    (PreimagesSound sampleEnvironment.primitives 1 (sampleContext sampleLeft).services ∧
      ∃ x, Calls sampleEnvironment (sampleContext sampleLeft) x ∧
        ¬ Lifecycle 1 sampleEnvironment.expungePeriod
          (((sampleContext sampleLeft).services.view sampleEnvironment.primitives (2 ^ 16)).request
            (Vector.replicate 32 0, 1))
          ((x.services.view sampleEnvironment.primitives (2 ^ 16)).request
            (Vector.replicate 32 0, 1))) := by
  refine ⟨⟨sampleWriter_sound, ?_⟩, sampleLeft_sound, ?_⟩
  · have hcall : ∃ out x round, execute sampleEnvironment .write 20000 sampleForgeryRegisters
        sampleForgery (sampleContext sampleWriter) = .ok (out, x) ∧
        finishRound sampleEnvironment.primitives 1 { sampleState with services := sampleWriter }
          [(5, x.context.toOutput none 0)] = .ok round ∧
        round.accumulationState.services.retrievePreimageAvailability sampleEnvironment.primitives 5
          (Vector.replicate 32 0) (2 ^ 32 - 1) = .ok [0, 0, 0, 0] := ⟨_, _, _, rfl, rfl, rfl⟩
    obtain ⟨out, x, round, hcall, hround, hforged⟩ := hcall
    refine ⟨x, round, .call (.none _) hcall, hround, fun hsound => ?_⟩
    have hlength := (hsound.histories 5 _ _ _ hforged).length_le
    exact absurd hlength (by decide)
  · have hcall : ∃ out x, execute sampleEnvironment .new 10000 sampleNewRegisters sampleMemory
        (sampleContext sampleLeft) = .ok (out, x) ∧
        (x.services.view sampleEnvironment.primitives (2 ^ 16)).request (Vector.replicate 32 0, 1) =
          some [] := ⟨_, _, rfl, rfl⟩
    obtain ⟨out, x, hcall, hnew⟩ := hcall
    refine ⟨x, .call (.none _) hcall, fun hlife => ?_⟩
    exact (not_lifecycle_to_nil hlife).1 hnew

end HostCalls
