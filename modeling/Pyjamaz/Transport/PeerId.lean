import Pyjamaz.Library.Dict
import Pyjamaz.Library.Numerals
import Pyjamaz.Library.Octets
import Pyjamaz.Library.Result

/-!
# Peer ids

The peer id of a validator is its Ed25519 key as a number in base 32, lowest digit first, behind an `e`.
Keys have 256 bits and the 52 digits of a peer id 260, so the last character of a peer id is `a` or `b`.

The decoder asks for the prefix, the length and the alphabet, and answers anything else with a
`ValueError`.  It does not ask for the last character: where this is another one, the number is too large
for 32 bytes, and what is raised is the `OverflowError` of `to_bytes` (`peer_id_codec`).
-/

namespace Transport

open Octets

/-! ## The codec -/

/-- What the decoder raises. -/
inductive PeerIdError where
  | valueError (message : String)
  | overflowError
  deriving DecidableEq, Repr

/-- The 32 digits; a string is the list of its characters. -/
def alphabet : List Char :=
  ['a', 'b', 'c', 'd', 'e', 'f', 'g', 'h', 'i', 'j', 'k', 'l', 'm', 'n', 'o', 'p', 'q', 'r', 's', 't',
    'u', 'v', 'w', 'x', 'y', 'z', '2', '3', '4', '5', '6', '7']

lemma length_alphabet : alphabet.length = 32 := rfl

/-- `alphabet[n % 32]` -/
def digitChar (n : ℕ) : Char := alphabet.get ⟨n % 32, length_alphabet ▸ Nat.mod_lt n (by decide)⟩

def quicPeerId (ed25519PublicKey : Octets32) : List Char :=
  let n := ofLittleEndian ed25519PublicKey.toList
  ((List.range 52).foldl (fun (peerId, n) _ => (peerId ++ [digitChar n], n / 32)) (['e'], n)).1

/-- `char_to_value` -/
def charToValue : Dict Char ℕ := Dict.assign ∅ alphabet.zipIdx

/-- One more character of the peer id, read from its end. -/
def readDigit (n : ℕ) (c : Char) : Except PeerIdError ℕ :=
  match charToValue.get? c with
  | none => .error (.valueError ("Invalid character in peer ID: " ++ c.toString))
  | some value => .ok (n * 32 + value)

/-- `n.to_bytes(32, 'little')` -/
def toBytes32 (n : ℕ) : Except PeerIdError Octets32 :=
  if n < 2 ^ 256 then .ok ⟨(littleEndian 32 n).toArray, by simp⟩ else .error .overflowError

def ed25519PubkeyFromPeerId (peerId : List Char) : Except PeerIdError Octets32 :=
  if peerId.head? ≠ some 'e' ∨ peerId.length ≠ 53 then .error (.valueError "Invalid peer ID format")
  else do
    let n ← peerId.tail.reverse.foldlM readDigit 0
    toBytes32 n

/-! ## The alphabet -/

lemma charToValue_eq_some {c : Char} {v : ℕ} :
    charToValue.get? c = some v ↔ alphabet[v]? = some c := by
  have hentries : charToValue.entries = alphabet.zipIdx := by decide
  rw [← Dict.mem_entries_iff, hentries, List.mem_zipIdx_iff_getElem?]

lemma lt_of_charToValue {c : Char} {v : ℕ} (h : charToValue.get? c = some v) : v < 32 := by
  rw [charToValue_eq_some] at h
  exact (List.getElem?_eq_some_iff.mp h).1

lemma get_alphabet_eq_iff {d : Fin 32} {c : Char} :
    alphabet.get (d.cast length_alphabet.symm) = c ↔ charToValue.get? c = some d.val := by
  have hget : alphabet[d.val]? = some (alphabet.get (d.cast length_alphabet.symm)) :=
    List.getElem?_eq_getElem (d.cast length_alphabet.symm).isLt
  rw [charToValue_eq_some, hget, Option.some.injEq]

/-- The digits of peer ids. -/
def peerAlphabet : Alphabet 32 Char where
  char d := alphabet.get (d.cast length_alphabet.symm)
  digit c := (charToValue.get? c).bind fun v => if h : v < 32 then some ⟨v, h⟩ else none
  digit_eq_some := by
    intro c d
    rw [get_alphabet_eq_iff, Option.bind_eq_some_iff]
    constructor
    · rintro ⟨v, hv, hd⟩
      rw [dif_pos (lt_of_charToValue hv), Option.some.injEq] at hd
      rwa [← hd]
    · intro h
      exact ⟨d, h, dif_pos d.isLt⟩

lemma digitChar_eq (n : ℕ) : digitChar n = peerAlphabet.char (Fin.ofNat 32 n) := rfl

/-! ## The two loops -/

/-- The loop of the encoder writes the digits of the number. -/
lemma foldl_digits {ι : Type} (steps : List ι) : ∀ (peerId : List Char) (n : ℕ),
    (steps.foldl (fun (peerId, n) _ => (peerId ++ [digitChar n], n / 32)) (peerId, n)).1 =
      peerId ++ peerAlphabet.spell steps.length n := by
  induction steps with
  | nil => exact fun peerId n => (List.append_nil peerId).symm
  | cons step steps ih =>
    intro peerId n
    rw [List.foldl_cons, ih, List.length_cons, Alphabet.spell, List.append_assoc, digitChar_eq]
    rfl

lemma quicPeerId_eq (k : Octets32) :
    quicPeerId k = 'e' :: peerAlphabet.spell 52 (ofLittleEndian k.toList) :=
  foldl_digits (List.range 52) ['e'] (ofLittleEndian k.toList)

lemma readDigit_eq_ok {n m : ℕ} {c : Char} :
    readDigit n c = .ok m ↔ ∃ d : Fin 32, peerAlphabet.char d = c ∧ n * 32 + d = m := by
  have hchar : ∀ d : Fin 32, peerAlphabet.char d = c ↔ charToValue.get? c = some d.val :=
    fun _ => get_alphabet_eq_iff
  rw [readDigit]
  simp only [hchar]
  split
  · next hnone =>
    constructor
    · intro h
      cases h
    · rintro ⟨d, hd, -⟩
      rw [hnone] at hd
      cases hd
  · next v hv =>
    constructor
    · intro h
      exact ⟨⟨v, lt_of_charToValue hv⟩, hv, Except.ok.inj h⟩
    · rintro ⟨d, hd, rfl⟩
      rw [hv] at hd
      rw [Option.some.inj hd]

lemma readDigit_eq_error {n : ℕ} {c : Char} {e : PeerIdError} (h : readDigit n c = .error e) :
    ∃ message, e = .valueError message := by
  rw [readDigit] at h
  split at h
  · cases h
    exact ⟨_, rfl⟩
  · cases h

/-- The loop of the decoder reads the digits from the highest one on. -/
lemma foldlM_readDigit_eq_ok {digits : List Char} : ∀ {n : ℕ},
    digits.reverse.foldlM readDigit 0 = .ok n ↔ peerAlphabet.value digits = some n := by
  induction digits with
  | nil =>
    intro n
    exact ⟨fun h => congrArg some (Except.ok.inj h), fun h => congrArg Except.ok (Option.some.inj h)⟩
  | cons c digits ih =>
    intro n
    rw [List.reverse_cons, List.foldlM_append, Except.bind_eq_ok, Alphabet.value_cons_eq_some]
    simp only [List.foldlM_cons, List.foldlM_nil, bind_pure, readDigit_eq_ok, ih]
    constructor
    · rintro ⟨m, hm, d, hd, rfl⟩
      exact ⟨d, m, hd, hm, by omega⟩
    · rintro ⟨d, m, hd, hm, rfl⟩
      exact ⟨m, hm, d, hd, by omega⟩

/-- A loop that raises raises a `ValueError`. -/
lemma foldlM_readDigit_eq_error {cs : List Char} {e : PeerIdError} :
    ∀ {n : ℕ}, cs.foldlM readDigit n = .error e → ∃ message, e = .valueError message := by
  induction cs with
  | nil => exact nofun
  | cons c cs ih =>
    intro n h
    rw [List.foldlM_cons] at h
    cases hdigit : readDigit n c with
    | error e' =>
      rw [hdigit] at h
      cases h
      exact readDigit_eq_error hdigit
    | ok m =>
      rw [hdigit] at h
      exact ih h

/-! ## Keys -/

lemma ofLittleEndian_key_lt (k : Octets32) : ofLittleEndian k.toList < 2 ^ 256 := by
  have hlt := ofLittleEndian_lt k.toList
  have hpow : 256 ^ k.toList.length = 2 ^ 256 := by
    rw [Vector.length_toList]
    norm_num
  rwa [hpow] at hlt

lemma toBytes32_eq_ok {n : ℕ} {k : Octets32} :
    toBytes32 n = .ok k ↔ ofLittleEndian k.toList = n := by
  rw [toBytes32]
  split
  · next hlt =>
    rw [Except.ok.injEq]
    constructor
    · rintro rfl
      exact ofLittleEndian_littleEndian 32 hlt
    · rintro rfl
      have hback := littleEndian_ofLittleEndian k.toList
      rw [Vector.length_toList] at hback
      apply Vector.toList_inj.mp
      exact hback
  · next hge =>
    constructor
    · exact nofun
    · rintro rfl
      exact absurd (ofLittleEndian_key_lt k) hge

/-- The strings that get past the first check. -/
lemma hasFormat_iff {peerId : List Char} :
    ¬ (peerId.head? ≠ some 'e' ∨ peerId.length ≠ 53) ↔
      ∃ digits, peerId = 'e' :: digits ∧ digits.length = 52 := by
  rw [not_or, not_not, not_not]
  constructor
  · rintro ⟨hhead, hlength⟩
    cases peerId with
    | nil => cases hhead
    | cons c digits =>
      obtain rfl := Option.some.inj hhead
      exact ⟨digits, rfl, Nat.succ.inj hlength⟩
  · rintro ⟨digits, rfl, hlength⟩
    exact ⟨rfl, congrArg Nat.succ hlength⟩

/-- What is decoded is a peer id, the one of the key. -/
lemma ed25519PubkeyFromPeerId_eq_ok {peerId : List Char} {k : Octets32} :
    ed25519PubkeyFromPeerId peerId = .ok k ↔ quicPeerId k = peerId := by
  rw [ed25519PubkeyFromPeerId, quicPeerId_eq]
  split
  · next hformat =>
    constructor
    · intro h
      cases h
    · rintro rfl
      exact absurd hformat (hasFormat_iff.mpr ⟨_, rfl, Alphabet.length_spell 52 _⟩)
  · next hformat =>
    obtain ⟨digits, rfl, hlength⟩ := hasFormat_iff.mp hformat
    rw [Except.bind_eq_ok, List.cons.injEq, List.tail_cons]
    simp only [foldlM_readDigit_eq_ok, toBytes32_eq_ok, true_and]
    constructor
    · rintro ⟨n, hn, rfl⟩
      rw [← hlength]
      exact Alphabet.spell_value hn
    · rintro rfl
      refine ⟨_, Alphabet.value_spell 52 _, ?_⟩
      have hlt := ofLittleEndian_key_lt k
      rw [Nat.mod_eq_of_lt]
      exact hlt.trans (by decide)

/-! ## Numbers that are too large -/

lemma mem_alphabet {c : Char} : c ∈ alphabet ↔ ∃ d : Fin 32, peerAlphabet.char d = c := by
  rw [List.mem_iff_get]
  exact ⟨fun ⟨d, hd⟩ => ⟨d.cast length_alphabet, hd⟩,
    fun ⟨d, hd⟩ => ⟨d.cast length_alphabet.symm, hd⟩⟩

lemma exists_value_iff {digits : List Char} :
    (∃ n, peerAlphabet.value digits = some n) ↔ ∀ c ∈ digits, c ∈ alphabet := by
  induction digits with
  | nil => exact ⟨fun _ => nofun, fun _ => ⟨0, rfl⟩⟩
  | cons c digits ih =>
    rw [List.forall_mem_cons, ← ih, mem_alphabet]
    simp only [Alphabet.value_cons_eq_some]
    constructor
    · rintro ⟨n, d, m, hd, hm, -⟩
      exact ⟨⟨d, hd⟩, m, hm⟩
    · rintro ⟨⟨d, hd⟩, m, hm⟩
      exact ⟨_, d, m, hd, hm, rfl⟩

/-- A string with the form of a peer id whose last character is not `a` or `b`. -/
def ExceedsKey (peerId : List Char) : Prop :=
  ∃ digits top, peerId = 'e' :: (digits ++ [top]) ∧ digits.length = 51 ∧
    (∀ c ∈ digits ++ [top], c ∈ alphabet) ∧ top ≠ 'a' ∧ top ≠ 'b'

/-- The last digit has the weight `2 ^ 255`. -/
lemma two_pow_256_le_iff {digits : List Char} {top : Char} {n : ℕ} (hlength : digits.length = 51)
    (hn : peerAlphabet.value (digits ++ [top]) = some n) :
    2 ^ 256 ≤ n ↔ top ≠ 'a' ∧ top ≠ 'b' := by
  obtain ⟨m, d, hm, rfl, rfl⟩ := Alphabet.value_append_eq_some.mp hn
  have hlt := Alphabet.value_lt hm
  have hpow : 32 ^ digits.length = 2 ^ 255 := by
    rw [hlength]
    norm_num
  have hlow : ∀ d : Fin 32, 2 ≤ d.val ↔ peerAlphabet.char d ≠ 'a' ∧ peerAlphabet.char d ≠ 'b' := by
    decide
  rw [← hlow d]
  rw [hpow] at hlt ⊢
  omega

lemma toBytes32_overflows {n : ℕ} : toBytes32 n = .error .overflowError ↔ 2 ^ 256 ≤ n := by
  rw [toBytes32]
  split
  · next hlt => exact ⟨nofun, fun hle => absurd hlt (not_lt.mpr hle)⟩
  · next hge => exact ⟨fun _ => not_lt.mp hge, fun _ => rfl⟩

/-- The decoder overflows on strings of this kind only. -/
lemma ed25519PubkeyFromPeerId_overflows {peerId : List Char} :
    ed25519PubkeyFromPeerId peerId = .error .overflowError ↔ ExceedsKey peerId := by
  rw [ed25519PubkeyFromPeerId]
  split
  · next hformat =>
    constructor
    · exact nofun
    · rintro ⟨digits, top, rfl, hlength, -⟩
      have hlength' : (digits ++ [top]).length = 52 := by
        rw [List.length_append, hlength]
        rfl
      exact absurd hformat (hasFormat_iff.mpr ⟨_, rfl, hlength'⟩)
  · next hformat =>
    obtain ⟨rest, rfl, hrest⟩ := hasFormat_iff.mp hformat
    obtain ⟨digits, top, rfl⟩ : ∃ digits top, rest = digits ++ [top] := by
      have hne : rest ≠ [] := List.ne_nil_of_length_pos (by omega)
      exact ⟨rest.dropLast, rest.getLast hne, (List.dropLast_append_getLast hne).symm⟩
    have hlength : digits.length = 51 := by
      rw [List.length_append, List.length_singleton] at hrest
      omega
    have hexceeds : ExceedsKey ('e' :: (digits ++ [top])) ↔
        (∃ n, peerAlphabet.value (digits ++ [top]) = some n) ∧ top ≠ 'a' ∧ top ≠ 'b' := by
      rw [exists_value_iff]
      constructor
      · rintro ⟨digits', top', heq, -, hall, htop⟩
        obtain ⟨rfl, hlast⟩ := List.append_inj' (List.cons.inj heq).2 rfl
        obtain rfl := List.singleton_inj.mp hlast
        exact ⟨hall, htop⟩
      · rintro ⟨hall, htop⟩
        exact ⟨digits, top, rfl, hlength, hall, htop⟩
    rw [hexceeds, List.tail_cons]
    cases hloop : (digits ++ [top]).reverse.foldlM readDigit 0 with
    | error e =>
      obtain ⟨message, rfl⟩ := foldlM_readDigit_eq_error hloop
      constructor
      · exact nofun
      · rintro ⟨⟨n, hn⟩, -⟩
        rw [← foldlM_readDigit_eq_ok, hloop] at hn
        cases hn
    | ok n =>
      have hn := foldlM_readDigit_eq_ok.mp hloop
      rw [← two_pow_256_le_iff hlength hn, ← toBytes32_overflows]
      exact ⟨fun h => ⟨⟨n, hn⟩, h⟩, fun h => h.2⟩

/-- The decoder inverts the encoder.  It answers a string with a `ValueError` or with the key whose peer
id the string is, unless the string has the form of a peer id and ends in another character than `a`
and `b`. -/
theorem peer_id_codec (peerId : List Char) :
    (∀ k : Octets32, ed25519PubkeyFromPeerId (quicPeerId k) = .ok k) ∧
    (∀ k k' : Octets32, quicPeerId k = quicPeerId k' → k = k') ∧
    (((∃ message, ed25519PubkeyFromPeerId peerId = .error (.valueError message)) ∨
        ∃ k, ed25519PubkeyFromPeerId peerId = .ok k ∧ quicPeerId k = peerId) ↔
      ¬ ExceedsKey peerId) := by
  have hinverse : ∀ k : Octets32, ed25519PubkeyFromPeerId (quicPeerId k) = .ok k :=
    fun k => ed25519PubkeyFromPeerId_eq_ok.mpr rfl
  refine ⟨hinverse, fun k k' h => ?_, ?_⟩
  · have hk := hinverse k
    rw [h, hinverse k'] at hk
    exact (Except.ok.inj hk).symm
  · rw [← ed25519PubkeyFromPeerId_overflows]
    cases hresult : ed25519PubkeyFromPeerId peerId with
    | ok k => exact ⟨fun _ => nofun, fun _ => .inr ⟨k, rfl, ed25519PubkeyFromPeerId_eq_ok.mp hresult⟩⟩
    | error e =>
      cases e with
      | valueError message => exact ⟨fun _ => nofun, fun _ => .inl ⟨message, rfl⟩⟩
      | overflowError =>
        constructor
        · rintro (⟨message, h⟩ | ⟨k, h, -⟩)
          · cases h
          · cases h
        · exact fun h => absurd rfl h

/-- The string for the number `2 ^ 256` has the form of a peer id, and overflows. -/
theorem peer_id_overflows :
    ed25519PubkeyFromPeerId ('e' :: (List.replicate 51 'a' ++ ['c'])) = .error .overflowError ∧
    ¬ ∀ peerId : List Char,
      (∃ message, ed25519PubkeyFromPeerId peerId = .error (.valueError message)) ∨
        ∃ k, ed25519PubkeyFromPeerId peerId = .ok k ∧ quicPeerId k = peerId := by
  have hoverflow : ed25519PubkeyFromPeerId ('e' :: (List.replicate 51 'a' ++ ['c'])) =
      .error .overflowError := by decide
  refine ⟨hoverflow, fun h => ?_⟩
  rcases h ('e' :: (List.replicate 51 'a' ++ ['c'])) with ⟨message, hvalue⟩ | ⟨k, hok, -⟩
  · cases hoverflow.symm.trans hvalue
  · cases hoverflow.symm.trans hok

end Transport
