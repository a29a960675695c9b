import Mathlib.Logic.Function.Basic
import Mathlib.Logic.Relation
import Pyjamaz.Library.Tally
import Pyjamaz.Services.Overlay

/-!
# A service as the state answers about it

`View` is what the reads of a services state answer about one service: its account, its storage items,
its preimages and its requests for preimages.  `Change` lists what may happen to a view, as a model of
its own: an account is replaced, created or ejected, and its entries change together with its
footprint.  Whatever is to be proved of the entries of accounts is proved of these changes, and the
host calls, the merge and the integration of preimages are shown to make no others.

Requests for preimages of `2 ^ 32 - 2` and more bytes are left out of the view: they share their keys
with preimages and storage items.
-/

namespace Services

open Octets

/-! ## Views -/

/-- What a services state answers about one service. -/
structure View where
  account : Except ServiceError ServiceAccount
  storageItem : Octets → Option Octets
  preimage : Octets32 → Option Octets
  request : Octets32 × ℕ → Option (List ℕ)

def ServicesState.view (P : Primitives) (st : ServicesState) (s : ℕ) : View where
  account := st.retrieveServiceAccount s
  storageItem key := (st.retrieveStorageItem s key).toOption
  preimage preimageHash := (st.retrievePreimage s preimageHash).toOption
  request r := if r.2 < 2 ^ 32 - 2 then
      (st.retrievePreimageAvailability P s r.1 r.2).toOption
    else none

@[simp] lemma toOption_ofItem {V : Type} (v : Option V) : (ofItem v).toOption = v := by
  cases v <;> rfl

lemma readOverlay_some {V : Type} (v : Option V) (stored : Except ServiceError V) :
    readOverlay (some v) stored = ofItem v := by
  cases v <;> rfl

section Pending

variable (P : Primitives) (st : ServicesState) {s t : ℕ}

lemma view_setPendingAccount_self (hs : s < 2 ^ 32) (account : Option ServiceAccount) :
    (st.setPendingAccount s account).view P s =
      { st.view P s with account := ofItem account } := by
  have haccount : (st.setPendingAccount s account).retrieveServiceAccount s = ofItem account := by
    rw [ServicesState.retrieveServiceAccount, if_neg (not_le.mpr hs), ServicesState.setPendingAccount,
      Dict.get?_insert_self, readOverlay_some]
  simp only [ServicesState.view, haccount]
  rfl

lemma view_setPendingAccount_of_ne (h : t ≠ s) (account : Option ServiceAccount) :
    (st.setPendingAccount s account).view P t = st.view P t := by
  have haccount : (st.setPendingAccount s account).retrieveServiceAccount t =
      st.retrieveServiceAccount t := by
    simp only [ServicesState.retrieveServiceAccount, ServicesState.setPendingAccount,
      Dict.get?_insert_of_ne _ h]
  simp only [ServicesState.view, haccount]
  rfl

lemma view_setPendingStorageItem_self (key : Octets) (value : Option Octets) :
    (st.setPendingStorageItem s key value).view P s =
      { st.view P s with storageItem := Function.update (st.view P s).storageItem key value } := by
  simp only [ServicesState.view, View.mk.injEq]
  refine ⟨rfl, ?_, rfl, rfl⟩
  funext key'
  by_cases hkey : key' = key
  · subst hkey
    rw [Function.update_self, ServicesState.retrieveStorageItem, ServicesState.setPendingStorageItem,
      Dict.get?_insert_self, readOverlay_some, toOption_ofItem]
  · rw [Function.update_of_ne hkey, ServicesState.retrieveStorageItem,
      ServicesState.setPendingStorageItem,
      Dict.get?_insert_of_ne _ (fun heq => hkey (congrArg Prod.snd heq))]
    rfl

lemma view_setPendingStorageItem_of_ne (h : t ≠ s) (key : Octets) (value : Option Octets) :
    (st.setPendingStorageItem s key value).view P t = st.view P t := by
  have hitem : ∀ key', (st.setPendingStorageItem s key value).retrieveStorageItem t key' =
      st.retrieveStorageItem t key' := by
    intro key'
    rw [ServicesState.retrieveStorageItem, ServicesState.setPendingStorageItem,
      Dict.get?_insert_of_ne _ (fun heq => h (congrArg Prod.fst heq))]
    rfl
  simp only [ServicesState.view, hitem]
  rfl

lemma view_setPendingPreimage_self (preimageHash : Octets32) (value : Option Octets) :
    (st.setPendingPreimage s preimageHash value).view P s =
      { st.view P s with preimage := Function.update (st.view P s).preimage preimageHash value } := by
  simp only [ServicesState.view, View.mk.injEq]
  refine ⟨rfl, rfl, ?_, rfl⟩
  funext preimageHash'
  by_cases hhash : preimageHash' = preimageHash
  · subst hhash
    rw [Function.update_self, ServicesState.retrievePreimage, ServicesState.setPendingPreimage,
      Dict.get?_insert_self, readOverlay_some, toOption_ofItem]
  · rw [Function.update_of_ne hhash, ServicesState.retrievePreimage,
      ServicesState.setPendingPreimage,
      Dict.get?_insert_of_ne _ (fun heq => hhash (congrArg Prod.snd heq))]
    rfl

lemma view_setPendingPreimage_of_ne (h : t ≠ s) (preimageHash : Octets32) (value : Option Octets) :
    (st.setPendingPreimage s preimageHash value).view P t = st.view P t := by
  have hpreimage : ∀ preimageHash',
      (st.setPendingPreimage s preimageHash value).retrievePreimage t preimageHash' =
        st.retrievePreimage t preimageHash' := by
    intro preimageHash'
    rw [ServicesState.retrievePreimage, ServicesState.setPendingPreimage,
      Dict.get?_insert_of_ne _ (fun heq => h (congrArg Prod.fst heq))]
    rfl
  simp only [ServicesState.view, hpreimage]
  rfl

lemma view_setPendingAvailability_self (hs : s < 2 ^ 32) {preimageHash : Octets32} {z : ℕ}
    (hz : z < 2 ^ 32 - 2) (value : Option (List ℕ)) :
    (st.setPendingAvailability s preimageHash z value).view P s =
      { st.view P s with
        request := Function.update (st.view P s).request (preimageHash, z) value } := by
  simp only [ServicesState.view, View.mk.injEq]
  refine ⟨rfl, rfl, rfl, ?_⟩
  funext r
  by_cases hr : r = (preimageHash, z)
  · subst hr
    rw [Function.update_self, if_pos hz, ServicesState.retrievePreimageAvailability,
      if_pos ⟨hs, by omega⟩, ServicesState.setPendingAvailability, Dict.get?_insert_self,
      readOverlay_some, toOption_ofItem]
  · rw [Function.update_of_ne hr, ServicesState.retrievePreimageAvailability,
      ServicesState.setPendingAvailability,
      Dict.get?_insert_of_ne _ (fun heq => hr (congrArg Prod.snd heq))]
    rfl

lemma view_setPendingAvailability_of_ne (h : t ≠ s) (preimageHash : Octets32) (z : ℕ)
    (value : Option (List ℕ)) :
    (st.setPendingAvailability s preimageHash z value).view P t = st.view P t := by
  have hrequest : ∀ preimageHash' z',
      (st.setPendingAvailability s preimageHash z value).retrievePreimageAvailability P t
        preimageHash' z' = st.retrievePreimageAvailability P t preimageHash' z' := by
    intro preimageHash' z'
    rw [ServicesState.retrievePreimageAvailability, ServicesState.setPendingAvailability,
      Dict.get?_insert_of_ne _ (fun heq => h (congrArg Prod.fst heq))]
    rfl
  simp only [ServicesState.view, hrequest]
  rfl

variable {P st}

/-- What the view says about a request that was read. -/
lemma request_of_retrieve {preimageHash : Octets32} {z : ℕ} {history : List ℕ}
    (hz : z < 2 ^ 32 - 2)
    (h : st.retrievePreimageAvailability P s preimageHash z = .ok history) :
    s < 2 ^ 32 ∧ (st.view P s).request (preimageHash, z) = some history := by
  have hs : s < 2 ^ 32 := by
    by_contra hs
    rw [ServicesState.retrievePreimageAvailability, if_neg (fun hand => hs hand.1)] at h
    cases h
  refine ⟨hs, ?_⟩
  simp only [ServicesState.view, if_pos hz, h]
  rfl

end Pending

/-! ## Footprints -/

/-- The two counters of an account with these requests and these storage items. -/
def Footprint (request : Octets32 × ℕ → Option (List ℕ)) (storageItem : Octets → Option Octets)
    (items bytes : ℤ) : Prop :=
  ∃ requests requestBytes storageItems storageBytes : ℤ,
    Entries request requests ∧ Tally (fun r _ => 81 + r.2) request requestBytes ∧
    Entries storageItem storageItems ∧
    Tally (fun key value => 34 + key.length + value.length) storageItem storageBytes ∧
    items = 2 * requests + storageItems ∧ bytes = requestBytes + storageBytes

/-- What an entry adds to the number of entries. -/
abbrev presence {V : Type} (v : Option V) : ℤ := v.elim 0 (fun _ => 1)

/-- What a request adds to the bytes. -/
abbrev requestBytes (r : Octets32 × ℕ) (v : Option (List ℕ)) : ℤ := v.elim 0 (fun _ => 81 + r.2)

/-- What a storage item adds to the bytes. -/
abbrev itemBytes (key : Octets) (v : Option Octets) : ℤ :=
  v.elim 0 (fun value => 34 + key.length + value.length)

section Footprint

variable {request : Octets32 × ℕ → Option (List ℕ)} {storageItem : Octets → Option Octets}
  {items bytes : ℤ}

lemma Footprint.of_none (hrequest : ∀ r, request r = none) (hitem : ∀ key, storageItem key = none) :
    Footprint request storageItem 0 0 :=
  ⟨0, 0, 0, 0, .of_none _ hrequest, .of_none _ hrequest, .of_none _ hitem, .of_none _ hitem,
    rfl, rfl⟩

lemma Footprint.setRequest (h : Footprint request storageItem items bytes) (r : Octets32 × ℕ)
    (v : Option (List ℕ)) :
    Footprint (Function.update request r v) storageItem
      (items - 2 * presence (request r) + 2 * presence v)
      (bytes - requestBytes r (request r) + requestBytes r v) := by
  obtain ⟨n, b, m, c, hn, hb, hm, hc, rfl, rfl⟩ := h
  refine ⟨_, _, m, c, hn.update r v, hb.update r v, hm, hc, ?_, ?_⟩
  · simp only [entryWeight, presence]
    omega
  · simp only [entryWeight, requestBytes]
    omega

lemma Footprint.setItem (h : Footprint request storageItem items bytes) (key : Octets)
    (v : Option Octets) :
    Footprint request (Function.update storageItem key v)
      (items - presence (storageItem key) + presence v)
      (bytes - itemBytes key (storageItem key) + itemBytes key v) := by
  obtain ⟨n, b, m, c, hn, hb, hm, hc, rfl, rfl⟩ := h
  refine ⟨n, b, _, _, hn, hb, hm.update key v, hc.update key v, ?_, ?_⟩
  · simp only [entryWeight, presence]
    omega
  · simp only [entryWeight, itemBytes]
    omega

/-- Two items in the footprint that are a request leave room for nothing else. -/
lemma Footprint.eq_none_of_two (h : Footprint request storageItem 2 bytes) {r : Octets32 × ℕ}
    {history : List ℕ} (hr : request r = some history) :
    (∀ r', r' ≠ r → request r' = none) ∧ ∀ key, storageItem key = none := by
  obtain ⟨n, b, m, c, hn, -, hm, -, hitems, -⟩ := h
  have hpos := hn.pos_of_some hr
  have hnonneg := hm.nonneg
  obtain rfl : n = 1 := by omega
  exact ⟨fun r' hne => hn.eq_none_of_one hr hne, fun key => hm.eq_none_of_nonpos (by omega) key⟩

end Footprint

/-- The footprint of an account counts its entries, no storage value is empty, and without an account
there are no entries. -/
structure View.WellFooted (v : View) : Prop where
  footprint : ∀ a, v.account = .ok a →
    Footprint v.request v.storageItem a.footprintStorageItems a.footprintStorageBytes
  nonempty : ∀ key, v.storageItem key ≠ some []
  vacant : v.account = .error .noResult →
    (∀ r, v.request r = none) ∧ ∀ key, v.storageItem key = none

/-! ## The histories of requests -/

/-- What happens to the history of a request at a timeslot; `none` is no request. -/
inductive AvailabilityStep (timeslot expungePeriod : ℕ) :
    Option (List ℕ) → Option (List ℕ) → Prop
  | requested : AvailabilityStep timeslot expungePeriod none (some [])
  | provided : AvailabilityStep timeslot expungePeriod (some []) (some [timeslot])
  | forgotten (x : ℕ) : AvailabilityStep timeslot expungePeriod (some [x]) (some [x, timeslot])
  | renewed (x y : ℕ) :
      AvailabilityStep timeslot expungePeriod (some [x, y]) (some [x, y, timeslot])
  | retired (x y z : ℕ) (h : (y : ℤ) < timeslot - expungePeriod) :
      AvailabilityStep timeslot expungePeriod (some [x, y, z]) (some [z, timeslot])
  | dropped : AvailabilityStep timeslot expungePeriod (some []) none
  | expunged (x y : ℕ) (h : (y : ℤ) < timeslot - expungePeriod) :
      AvailabilityStep timeslot expungePeriod (some [x, y]) none

/-- A history as it may be at a timeslot. -/
structure HistorySound (timeslot : ℕ) (history : List ℕ) : Prop where
  length_le : history.length ≤ 3
  nondecreasing : history.Pairwise (fun x y => x ≤ y)
  bounded : ∀ x ∈ history, x ≤ timeslot

/-- The stored preimages are under their hashes and have been requested, and the histories of the
requests are sound. -/
structure View.PreimageSound (P : Primitives) (timeslot : ℕ) (v : View) : Prop where
  preimages : ∀ preimageHash blob, v.preimage preimageHash = some blob →
    P.blake2b256Hash blob = preimageHash ∧ v.request (preimageHash, blob.length) ≠ none
  histories : ∀ r history, v.request r = some history → HistorySound timeslot history

/-- The view of a service of which there is nothing. -/
def View.vacant : View := ⟨.error .noResult, fun _ => none, fun _ => none, fun _ => none⟩

/-- Without an account nothing is left, not even a preimage. -/
lemma View.WellFooted.eq_vacant {P : Primitives} {timeslot : ℕ} {v : View} (h : v.WellFooted)
    (hsound : v.PreimageSound P timeslot) (hfree : v.account = .error .noResult) : v = .vacant := by
  obtain ⟨hrequest, hitem⟩ := h.vacant hfree
  have hpreimage : ∀ preimageHash, v.preimage preimageHash = none := by
    intro preimageHash
    rw [Option.eq_none_iff_forall_ne_some]
    intro blob hblob
    exact (hsound.preimages preimageHash blob hblob).2 (hrequest _)
  obtain ⟨account, storageItem, preimage, request⟩ := v
  obtain rfl : account = .error .noResult := hfree
  rw [View.vacant, View.mk.injEq]
  exact ⟨rfl, funext hitem, funext hpreimage, funext hrequest⟩

lemma HistorySound.step {timeslot expungePeriod : ℕ} {history history' : List ℕ}
    (h : HistorySound timeslot history)
    (hstep : AvailabilityStep timeslot expungePeriod (some history) (some history')) :
    HistorySound timeslot history' := by
  obtain ⟨-, hpairwise, hbounded⟩ := h
  cases hstep with
  | provided => exact ⟨by simp, by simp, by simp⟩
  | forgotten x =>
    have hx := hbounded x (by simp)
    exact ⟨by simp, by simp [hx], by simp [hx]⟩
  | renewed x y =>
    have hx := hbounded x (by simp)
    have hy := hbounded y (by simp)
    have hxy : x ≤ y := List.rel_of_pairwise_cons hpairwise (by simp)
    exact ⟨by simp, by simp [hx, hy, hxy], by simp [hx, hy]⟩
  | retired x y z _ =>
    have hz := hbounded z (by simp)
    exact ⟨by simp, by simp [hz], by simp [hz]⟩

lemma HistorySound.mono {timeslot timeslot' : ℕ} {history : List ℕ}
    (h : HistorySound timeslot history) (hle : timeslot ≤ timeslot') :
    HistorySound timeslot' history :=
  ⟨h.length_le, h.nondecreasing, fun x hx => (h.bounded x hx).trans hle⟩

lemma View.PreimageSound.mono {P : Primitives} {timeslot timeslot' : ℕ} {v : View}
    (h : v.PreimageSound P timeslot) (hle : timeslot ≤ timeslot') : v.PreimageSound P timeslot' :=
  ⟨h.preimages, fun r history hr => (h.histories r history hr).mono hle⟩

/-! ## Changes -/

/-- What may happen to a view at a timeslot. -/
inductive View.Change (P : Primitives) (timeslot expungePeriod : ℕ) (v : View) : View → Prop
  /-- The account is replaced by one with the same footprint. -/
  | account {a a' : ServiceAccount} (ha : v.account = .ok a)
      (hitems : a'.footprintStorageItems = a.footprintStorageItems)
      (hbytes : a'.footprintStorageBytes = a.footprintStorageBytes) :
      Change P timeslot expungePeriod v { v with account := .ok a' }
  /-- An account is created with a request for its code. -/
  | created {a : ServiceAccount} {codeHash : Octets32} {l : ℕ}
      (hfree : v.account = .error .noResult) (hitems : a.footprintStorageItems = 2)
      (hbytes : a.footprintStorageBytes = 81 + l) :
      Change P timeslot expungePeriod v { v with
        account := .ok a
        request := Function.update v.request (codeHash, l) (some []) }
  /-- The account is ejected with its last request. -/
  | ejected {a : ServiceAccount} {r : Octets32 × ℕ} {x y : ℕ} (ha : v.account = .ok a)
      (hitems : a.footprintStorageItems = 2) (hpresent : v.request r = some [x, y])
      (hexpunged : (y : ℤ) < timeslot - expungePeriod) :
      Change P timeslot expungePeriod v { v with
        account := .error .noResult
        preimage := Function.update v.preimage r.1 none
        request := Function.update v.request r none }
  /-- A preimage is requested. -/
  | requested {a : ServiceAccount} {r : Octets32 × ℕ} (ha : v.account = .ok a)
      (habsent : v.request r = none) :
      Change P timeslot expungePeriod v { v with
        account := .ok (a.updateFootprintAddPreimage r.2)
        request := Function.update v.request r (some []) }
  /-- The history of a request goes on. -/
  | history {r : Octets32 × ℕ} {history history' : List ℕ} (hpresent : v.request r = some history)
      (hstep : AvailabilityStep timeslot expungePeriod (some history) (some history')) :
      Change P timeslot expungePeriod v { v with
        request := Function.update v.request r (some history') }
  /-- A request is forgotten, and with it the preimage. -/
  | forgotten {a : ServiceAccount} {r : Octets32 × ℕ} {history : List ℕ} (ha : v.account = .ok a)
      (hpresent : v.request r = some history)
      (hstep : AvailabilityStep timeslot expungePeriod (some history) none) :
      Change P timeslot expungePeriod v { v with
        account := .ok (a.updateFootprintRemovePreimage r.2)
        preimage := Function.update v.preimage r.1 none
        request := Function.update v.request r none }
  /-- A storage item is written or removed. -/
  | written {a a' : ServiceAccount} {key : Octets} {value : Option Octets} (ha : v.account = .ok a)
      (hvalue : value ≠ some [])
      (hfootprint : v.storageItem key ≠ some [] →
        a'.footprintStorageItems =
            a.footprintStorageItems - presence (v.storageItem key) + presence value ∧
          a'.footprintStorageBytes =
            a.footprintStorageBytes - itemBytes key (v.storageItem key) + itemBytes key value) :
      Change P timeslot expungePeriod v { v with
        account := .ok a'
        storageItem := Function.update v.storageItem key value }
  /-- A preimage that is requested is provided. -/
  | provided {blob : Octets}
      (hpresent : v.request (P.blake2b256Hash blob, blob.length) = some []) :
      Change P timeslot expungePeriod v { v with
        preimage := Function.update v.preimage (P.blake2b256Hash blob) (some blob)
        request := Function.update v.request (P.blake2b256Hash blob, blob.length)
          (some [timeslot]) }

section Changes

variable {P : Primitives} {timeslot expungePeriod : ℕ} {v v' : View}

/-- Another history of a request takes as much room. -/
lemma View.WellFooted.setHistory (h : v.WellFooted) {r : Octets32 × ℕ} {history : List ℕ}
    (hpresent : v.request r = some history) (history' : List ℕ) :
    View.WellFooted { v with request := Function.update v.request r (some history') } := by
  refine ⟨?_, h.nonempty, ?_⟩
  · intro a ha
    have hfootprint := (h.footprint a ha).setRequest r (some history')
    rw [hpresent] at hfootprint
    simpa using hfootprint
  · intro hfree
    rw [(h.vacant hfree).1] at hpresent
    cases hpresent

/-- Every change keeps the footprint of the account. -/
lemma View.WellFooted.change (h : v.WellFooted) (hchange : v.Change P timeslot expungePeriod v') :
    v'.WellFooted := by
  cases hchange with
  | account ha hitems hbytes =>
    refine ⟨?_, h.nonempty, nofun⟩
    rintro _ ⟨⟩
    rw [hitems, hbytes]
    exact h.footprint _ ha
  | @created a codeHash l hfree hitems hbytes =>
    obtain ⟨hrequest, hitem⟩ := h.vacant hfree
    refine ⟨?_, h.nonempty, nofun⟩
    rintro _ ⟨⟩
    have hfootprint := (Footprint.of_none hrequest hitem).setRequest (codeHash, l) (some [])
    rw [hrequest] at hfootprint
    rw [hitems, hbytes]
    simpa using hfootprint
  | @ejected a r x y ha hitems hpresent hexpunged =>
    have hfootprint := h.footprint a ha
    rw [hitems] at hfootprint
    obtain ⟨hrequest, hitem⟩ := hfootprint.eq_none_of_two hpresent
    refine ⟨nofun, h.nonempty, fun _ => ⟨?_, hitem⟩⟩
    intro r'
    change Function.update v.request r none r' = none
    by_cases hr : r' = r
    · rw [hr, Function.update_self]
    · rw [Function.update_of_ne hr, hrequest r' hr]
  | @requested a r ha habsent =>
    refine ⟨?_, h.nonempty, nofun⟩
    rintro _ ⟨⟩
    have hfootprint := (h.footprint a ha).setRequest r (some [])
    rw [habsent] at hfootprint
    simpa [ServiceAccount.updateFootprintAddPreimage] using hfootprint
  | @history r history history' hpresent hstep => exact h.setHistory hpresent history'
  | @forgotten a r history ha hpresent hstep =>
    refine ⟨?_, h.nonempty, nofun⟩
    rintro _ ⟨⟩
    have hfootprint := (h.footprint a ha).setRequest r none
    rw [hpresent] at hfootprint
    simpa [ServiceAccount.updateFootprintRemovePreimage] using hfootprint
  | @written a a' key value ha hvalue hfootprint =>
    refine ⟨?_, ?_, nofun⟩
    · rintro _ ⟨⟩
      obtain ⟨hitems, hbytes⟩ := hfootprint (h.nonempty key)
      rw [hitems, hbytes]
      exact (h.footprint a ha).setItem key value
    · intro key'
      change Function.update v.storageItem key value key' ≠ some []
      by_cases hkey : key' = key
      · rw [hkey, Function.update_self]
        exact hvalue
      · rw [Function.update_of_ne hkey]
        exact h.nonempty key'
  | @provided blob hpresent =>
    have hset := h.setHistory hpresent [timeslot]
    exact ⟨hset.footprint, hset.nonempty, hset.vacant⟩

/-- Entries that are removed with their hash take no other preimage's request with them. -/
lemma request_update_ne_none {request : Octets32 × ℕ → Option (List ℕ)} {preimageHash : Octets32}
    {length : ℕ} (h : request (preimageHash, length) ≠ none) {r : Octets32 × ℕ}
    {value : Option (List ℕ)} (hvalue : value ≠ none ∨ preimageHash ≠ r.1) :
    Function.update request r value (preimageHash, length) ≠ none := by
  by_cases hr : (preimageHash, length) = r
  · subst hr
    rw [Function.update_self]
    exact hvalue.resolve_right (fun hne => hne rfl)
  · rw [Function.update_of_ne hr]
    exact h

/-- What holds of all histories still holds when one is replaced. -/
lemma histories_update {request : Octets32 × ℕ → Option (List ℕ)} {r : Octets32 × ℕ}
    {value : Option (List ℕ)} {p : List ℕ → Prop}
    (h : ∀ r history, request r = some history → p history)
    (hvalue : ∀ history, value = some history → p history) :
    ∀ r' history, Function.update request r value r' = some history → p history := by
  intro r' history hr'
  by_cases hr : r' = r
  · rw [hr, Function.update_self] at hr'
    exact hvalue history hr'
  · rw [Function.update_of_ne hr] at hr'
    exact h r' history hr'

/-- The preimages that are left when one hash is removed with one of its requests. -/
lemma preimages_remove (h : v.PreimageSound P timeslot) (r : Octets32 × ℕ) :
    ∀ preimageHash blob, Function.update v.preimage r.1 none preimageHash = some blob →
      P.blake2b256Hash blob = preimageHash ∧
        Function.update v.request r none (preimageHash, blob.length) ≠ none := by
  intro preimageHash blob hblob
  by_cases hhash : preimageHash = r.1
  · rw [hhash, Function.update_self] at hblob
    cases hblob
  · rw [Function.update_of_ne hhash] at hblob
    obtain ⟨hfiled, hrequest⟩ := h.preimages preimageHash blob hblob
    exact ⟨hfiled, request_update_ne_none hrequest (.inr hhash)⟩

lemma historySound_nil (timeslot : ℕ) : HistorySound timeslot [] := ⟨by simp, by simp, by simp⟩

/-- Every change keeps the preimages sound. -/
lemma View.PreimageSound.change (h : v.PreimageSound P timeslot)
    (hchange : v.Change P timeslot expungePeriod v') : v'.PreimageSound P timeslot := by
  -- a request that is set keeps the preimages that are there
  have hset : ∀ (r : Octets32 × ℕ) (history : List ℕ) preimageHash blob,
      v.preimage preimageHash = some blob → P.blake2b256Hash blob = preimageHash ∧
        Function.update v.request r (some history) (preimageHash, blob.length) ≠ none := by
    intro r history preimageHash blob hblob
    obtain ⟨hfiled, hrequest⟩ := h.preimages preimageHash blob hblob
    exact ⟨hfiled, request_update_ne_none hrequest (.inl (Option.some_ne_none _))⟩
  have hnil : ∀ history, some ([] : List ℕ) = some history → HistorySound timeslot history := by
    rintro history ⟨⟩
    exact historySound_nil timeslot
  cases hchange with
  | account ha hitems hbytes => exact ⟨h.preimages, h.histories⟩
  | created hfree hitems hbytes => exact ⟨hset _ _, histories_update h.histories hnil⟩
  | ejected ha hitems hpresent hexpunged =>
    exact ⟨preimages_remove h _, histories_update h.histories nofun⟩
  | requested ha habsent => exact ⟨hset _ _, histories_update h.histories hnil⟩
  | history hpresent hstep =>
    refine ⟨hset _ _, histories_update h.histories ?_⟩
    rintro history ⟨⟩
    exact (h.histories _ _ hpresent).step hstep
  | forgotten ha hpresent hstep =>
    exact ⟨preimages_remove h _, histories_update h.histories nofun⟩
  | written ha hvalue hfootprint => exact ⟨h.preimages, h.histories⟩
  | @provided blob hpresent =>
    refine ⟨?_, histories_update h.histories ?_⟩
    · intro preimageHash blob' hblob
      by_cases hhash : preimageHash = P.blake2b256Hash blob
      · change Function.update v.preimage _ _ preimageHash = some blob' at hblob
        rw [hhash, Function.update_self] at hblob
        cases hblob
        refine ⟨hhash.symm, ?_⟩
        change Function.update v.request _ _ (preimageHash, blob.length) ≠ none
        rw [hhash, Function.update_self]
        exact Option.some_ne_none _
      · change Function.update v.preimage _ _ preimageHash = some blob' at hblob
        rw [Function.update_of_ne hhash] at hblob
        exact hset _ _ preimageHash blob' hblob
    · rintro history ⟨⟩
      exact (h.histories _ _ hpresent).step
        (.provided : AvailabilityStep timeslot expungePeriod _ _)

/-- A change takes every request at most one step further. -/
lemma View.Change.availability (h : v.Change P timeslot expungePeriod v') (hfooted : v.WellFooted)
    (r : Octets32 × ℕ) :
    v'.request r = v.request r ∨
      AvailabilityStep timeslot expungePeriod (v.request r) (v'.request r) := by
  have hupdate : ∀ (r₀ : Octets32 × ℕ) (value : Option (List ℕ)),
      AvailabilityStep timeslot expungePeriod (v.request r₀) value →
        Function.update v.request r₀ value r = v.request r ∨
          AvailabilityStep timeslot expungePeriod (v.request r)
            (Function.update v.request r₀ value r) := by
    intro r₀ value hstep
    by_cases hr : r = r₀
    · subst hr
      rw [Function.update_self]
      exact .inr hstep
    · exact .inl (Function.update_of_ne hr _ _)
  cases h with
  | account => exact .inl rfl
  | created hfree =>
    refine hupdate _ _ ?_
    rw [(hfooted.vacant hfree).1]
    exact .requested
  | @ejected a r₀ x y ha hitems hpresent hexpunged =>
    refine hupdate _ _ ?_
    rw [hpresent]
    exact .expunged x y hexpunged
  | requested ha habsent =>
    refine hupdate _ _ ?_
    rw [habsent]
    exact .requested
  | history hpresent hstep =>
    refine hupdate _ _ ?_
    rw [hpresent]
    exact hstep
  | forgotten ha hpresent hstep =>
    refine hupdate _ _ ?_
    rw [hpresent]
    exact hstep
  | written => exact .inl rfl
  | provided hpresent =>
    refine hupdate _ _ ?_
    rw [hpresent]
    exact .provided

end Changes

/-! ## Sequences of changes -/

/-- Any number of changes at one timeslot. -/
abbrev View.Changes (P : Primitives) (timeslot expungePeriod : ℕ) : View → View → Prop :=
  Relation.ReflTransGen (View.Change P timeslot expungePeriod)

/-- Any number of steps of one request at one timeslot. -/
abbrev Lifecycle (timeslot expungePeriod : ℕ) : Option (List ℕ) → Option (List ℕ) → Prop :=
  Relation.ReflTransGen (AvailabilityStep timeslot expungePeriod)

section Sequences

variable {P : Primitives} {timeslot expungePeriod : ℕ} {v v' : View}

lemma View.WellFooted.changes (h : v.WellFooted) (hchanges : v.Changes P timeslot expungePeriod v') :
    v'.WellFooted := by
  induction hchanges with
  | refl => exact h
  | tail _ hchange ih => exact ih.change hchange

lemma View.PreimageSound.changes (h : v.PreimageSound P timeslot)
    (hchanges : v.Changes P timeslot expungePeriod v') : v'.PreimageSound P timeslot := by
  induction hchanges with
  | refl => exact h
  | tail _ hchange ih => exact ih.change hchange

/-- Every request moves along its life cycle. -/
lemma View.Changes.lifecycle (h : v.Changes P timeslot expungePeriod v') (hfooted : v.WellFooted)
    (r : Octets32 × ℕ) : Lifecycle timeslot expungePeriod (v.request r) (v'.request r) := by
  induction h with
  | refl => exact .refl
  | tail hchanges hchange ih =>
    rcases hchange.availability (hfooted.changes hchanges) r with hsame | hstep
    · rw [hsame]
      exact ih
    · exact ih.tail hstep

end Sequences

/-! ## Accounts older than a timeslot -/

section Age

variable {P : Primitives} {timeslot expungePeriod : ℕ} {v v' : View}

/-- All that has happened to the requests happened at one timeslot. -/
def View.Young (timeslot : ℕ) (v : View) : Prop :=
  ∀ r history, v.request r = some history → ∀ x ∈ history, x = timeslot

lemma young_of_step {history history' : List ℕ}
    (hstep : AvailabilityStep timeslot expungePeriod (some history) (some history'))
    (h : ∀ x ∈ history, x = timeslot) : ∀ x ∈ history', x = timeslot := by
  cases hstep with
  | provided => simp
  | forgotten x => simpa using h
  | renewed x y => simpa using h
  | retired x y z _ =>
    have hz := h z (by simp)
    simpa using hz

lemma View.Young.change (h : v.Young timeslot) (hchange : v.Change P timeslot expungePeriod v') :
    v'.Young timeslot := by
  have hnil : ∀ history, some ([] : List ℕ) = some history → ∀ x ∈ history, x = timeslot := by
    rintro history ⟨⟩
    exact nofun
  cases hchange with
  | account => exact h
  | created => exact histories_update h hnil
  | ejected => exact histories_update h nofun
  | requested => exact histories_update h hnil
  | history hpresent hstep =>
    refine histories_update h ?_
    rintro history ⟨⟩
    exact young_of_step hstep (h _ _ hpresent)
  | forgotten => exact histories_update h nofun
  | written => exact h
  | provided hpresent =>
    refine histories_update h ?_
    rintro history ⟨⟩
    exact young_of_step (.provided : AvailabilityStep timeslot expungePeriod _ _) (h _ _ hpresent)

lemma View.Young.changes (h : v.Young timeslot) (hchanges : v.Changes P timeslot expungePeriod v') :
    v'.Young timeslot := by
  induction hchanges with
  | refl => exact h
  | tail _ hchange ih => exact ih.change hchange

/-- An account that cannot be read stays so. -/
lemma View.Changes.account_error {e : ServiceError} (h : v.Changes P timeslot expungePeriod v')
    (hne : e ≠ .noResult) (herror : v.account = .error e) : v'.account = .error e := by
  induction h with
  | refl => exact herror
  | tail _ hchange ih =>
    cases hchange with
    | account ha => cases ha.symm.trans ih
    | created hfree => exact absurd (Except.error.inj (ih.symm.trans hfree)) hne
    | ejected ha => cases ha.symm.trans ih
    | requested ha => cases ha.symm.trans ih
    | history => exact ih
    | forgotten ha => cases ha.symm.trans ih
    | written ha => cases ha.symm.trans ih
    | provided => exact ih

/-- A service with a request from before the timeslot had an account before the changes. -/
lemma View.Changes.account_of_old (h : v.Changes P timeslot expungePeriod v')
    (hsound : v.PreimageSound P timeslot) (hfooted : v.WellFooted) {account : ServiceAccount}
    (haccount : v'.account = .ok account) {r : Octets32 × ℕ} {x y : ℕ}
    (hpresent : v'.request r = some [x, y]) (hold : y < timeslot) :
    ∃ before, v.account = .ok before := by
  cases hbefore : v.account with
  | ok before => exact ⟨before, rfl⟩
  | error e =>
    by_cases hnone : e = .noResult
    · subst hnone
      have hyoung : v.Young timeslot := by
        intro r history hr
        rw [hfooted.eq_vacant hsound hbefore] at hr
        cases hr
      have hy := hyoung.changes h r _ hpresent y (by simp)
      omega
    · cases haccount.symm.trans (h.account_error hnone hbefore)

end Age

end Services
