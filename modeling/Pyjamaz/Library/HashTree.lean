import Mathlib.Algebra.Order.Ring.Int
import Mathlib.Tactic.Common
import Mathlib.Data.List.Perm.Basic

/-!
# Hash trees

A binary tree with entries at its leaves is committed to by hashing an encoding of every node, where
the encoding of a branch need not keep all of its children's digests.  If two different trees have
digests of which the same is kept, then somewhere on a common path the hash function was broken:
`HashTree.findBreak` walks down both trees and returns what it was broken at, and
`HashTree.findBreak_valid` says that it is a break.

Nothing is assumed of the hash function.  Of the encodings it is assumed that they tell leaves from
branches, that a branch determines what is kept of its children's digests, and that two leaves with
one encoding break something by themselves (`NodeEncoding.Separates`).
-/

/-- A binary tree with entries at its leaves. -/
inductive HashTree (E : Type*) where
  | empty
  | leaf (entry : E)
  | branch (left right : HashTree E)
  deriving DecidableEq

/-- What breaks a hash function: two messages with one digest, or a message with the digest that
stands for nothing. -/
inductive HashBreak (M : Type*) where
  | collision (x y : M)
  | null (x : M)
  deriving DecidableEq

/-- The nodes of a tree as messages. -/
structure NodeEncoding (E M D K : Type*) where
  leaf : E → M
  branch : D → D → M
  /-- the digest of the empty tree -/
  null : D
  /-- what is kept of a digest -/
  keep : D → K

namespace HashTree

variable {E M D K : Type*}

/-- The entries from left to right. -/
def entries : HashTree E → List E
  | empty => []
  | leaf e => [e]
  | branch l r => l.entries ++ r.entries

/-- The digest of a tree. -/
def digest (hash : M → D) (code : NodeEncoding E M D K) : HashTree E → D
  | empty => code.null
  | leaf e => hash (code.leaf e)
  | branch l r => hash (code.branch (l.digest hash code) (r.digest hash code))

end HashTree

/-- The messages break the hash function, as far as digests are kept. -/
def HashBreak.Valid {M D K : Type*} (hash : M → D) (null : D) (keep : D → K) : HashBreak M → Prop
  | .collision x y => x ≠ y ∧ keep (hash x) = keep (hash y)
  | .null x => keep (hash x) = keep null

/-- The encodings tell nodes apart, but for what `leafBreak` finds in two leaves. -/
structure NodeEncoding.Separates {E M D K : Type*} (hash : M → D) (code : NodeEncoding E M D K)
    (leafBreak : E → E → HashBreak M) : Prop where
  leaf_ne_branch : ∀ e d d', code.leaf e ≠ code.branch d d'
  branch_inj : ∀ {d₁ d₂ d₁' d₂'}, code.branch d₁ d₂ = code.branch d₁' d₂' →
    code.keep d₁ = code.keep d₁' ∧ code.keep d₂ = code.keep d₂'
  leafBreak_valid : ∀ {e e'}, e ≠ e' → code.leaf e = code.leaf e' →
    (leafBreak e e').Valid hash code.null code.keep

namespace HashTree

variable {E M D K : Type*} [DecidableEq M] (hash : M → D) (code : NodeEncoding E M D K)
  (leafBreak : E → E → HashBreak M)

/-- Two messages that differ collide; if they are the same, the search goes on. -/
def collideOr (x y : M) (next : HashBreak M) : HashBreak M := if x = y then next else .collision x y

/-- Where two trees with one digest break the hash function.  Two empty trees are equal, so
what is answered for them does not matter. -/
def findBreak [DecidableEq E] [Inhabited M] : HashTree E → HashTree E → HashBreak M
  | empty, empty => .null default
  | empty, leaf e => .null (code.leaf e)
  | empty, branch l r => .null (code.branch (l.digest hash code) (r.digest hash code))
  | leaf e, empty => .null (code.leaf e)
  | branch l r, empty => .null (code.branch (l.digest hash code) (r.digest hash code))
  | leaf e, leaf e' => collideOr (code.leaf e) (code.leaf e') (leafBreak e e')
  | leaf e, branch l r =>
    .collision (code.leaf e) (code.branch (l.digest hash code) (r.digest hash code))
  | branch l r, leaf e =>
    .collision (code.branch (l.digest hash code) (r.digest hash code)) (code.leaf e)
  | branch l r, branch l' r' =>
    collideOr (code.branch (l.digest hash code) (r.digest hash code))
      (code.branch (l'.digest hash code) (r'.digest hash code))
      (if l = l' then findBreak r r' else findBreak l l')

variable {hash code leafBreak}

lemma collideOr_valid {x y : M} {next : HashBreak M} (h : code.keep (hash x) = code.keep (hash y))
    (hnext : x = y → next.Valid hash code.null code.keep) :
    (collideOr x y next).Valid hash code.null code.keep := by
  unfold collideOr
  split
  · next hxy => exact hnext hxy
  · next hxy => exact ⟨hxy, h⟩

/-- Different trees with digests of which the same is kept break the hash function. -/
theorem findBreak_valid [DecidableEq E] [Inhabited M] (hcode : code.Separates hash leafBreak) (t : HashTree E) :
    ∀ t' : HashTree E, t ≠ t' → code.keep (t.digest hash code) = code.keep (t'.digest hash code) →
      (findBreak hash code leafBreak t t').Valid hash code.null code.keep := by
  induction t with
  | empty =>
    intro t' hne hdigest
    cases t' with
    | empty => exact absurd rfl hne
    | leaf e => exact hdigest.symm
    | branch l r => exact hdigest.symm
  | leaf e =>
    intro t' hne hdigest
    cases t' with
    | empty => exact hdigest
    | leaf e' =>
      refine collideOr_valid hdigest (hcode.leafBreak_valid ?_)
      rintro rfl
      exact hne rfl
    | branch l r => exact ⟨hcode.leaf_ne_branch e _ _, hdigest⟩
  | branch l r ihl ihr =>
    intro t' hne hdigest
    cases t' with
    | empty => exact hdigest
    | leaf e => exact ⟨(hcode.leaf_ne_branch e _ _).symm, hdigest⟩
    | branch l' r' =>
      refine collideOr_valid hdigest (fun hmessage => ?_)
      obtain ⟨hleft, hright⟩ := hcode.branch_inj hmessage
      split
      · next hl =>
        refine ihr r' (fun hr => hne ?_) hright
        rw [hl, hr]
      · next hl => exact ihl l' hl hleft

/-! ## Paths

A path from the root says at each branch whether it turns right; an audit path also has the digest of
the other child.  The digest that an audit path gives an entry is compared with that of a tree: either
the entry is in the tree where the path leads, or the hash function was broken. -/

/-- The entry of the leaf at the end of a path. -/
def entryAt : HashTree E → List Bool → Option E
  | leaf e, [] => some e
  | branch l _, false :: path => l.entryAt path
  | branch _ r, true :: path => r.entryAt path
  | _, _ => none

/-- The message of a branch, given the digest of the child on the path and that of the other one. -/
def turn (code : NodeEncoding E M D K) (right : Bool) (child sibling : D) : M :=
  if right then code.branch sibling child else code.branch child sibling

/-- The digest that an audit path gives an entry. -/
def pathDigest (hash : M → D) (code : NodeEncoding E M D K) (e : E) : List (Bool × D) → D
  | [] => hash (code.leaf e)
  | (right, sibling) :: path => hash (turn code right (pathDigest hash code e path) sibling)

/-- The digests beside a path. -/
def siblings (hash : M → D) (code : NodeEncoding E M D K) : HashTree E → List Bool → List D
  | branch l r, false :: path => r.digest hash code :: l.siblings hash code path
  | branch l r, true :: path => l.digest hash code :: r.siblings hash code path
  | _, _ => []

omit [DecidableEq M] in
/-- The path to an entry has a digest beside each of its steps. -/
lemma length_siblings {e : E} (t : HashTree E) (path : List Bool)
    (h : t.entryAt path = some e) : (t.siblings hash code path).length = path.length := by
  induction t generalizing path with
  | empty => exact absurd h (by simp [entryAt])
  | leaf e' =>
    cases path with
    | nil => rfl
    | cons b path => exact absurd h (by simp [entryAt])
  | branch l r ihl ihr =>
    cases path with
    | nil => exact absurd h (by simp [entryAt])
    | cons b path =>
      cases b with
      | false => rw [siblings, List.length_cons, List.length_cons, ihl path h]
      | true => rw [siblings, List.length_cons, List.length_cons, ihr path h]

omit [DecidableEq M] in
/-- The digests beside the path to an entry give that entry the digest of the tree. -/
lemma pathDigest_siblings {e : E} (t : HashTree E) (path : List Bool)
    (h : t.entryAt path = some e) :
    pathDigest hash code e (path.zip (t.siblings hash code path)) = t.digest hash code := by
  induction t generalizing path with
  | empty => exact absurd h (by simp [entryAt])
  | leaf e' =>
    cases path with
    | nil =>
      rw [entryAt, Option.some.injEq] at h
      rw [h]
      rfl
    | cons b path => exact absurd h (by simp [entryAt])
  | branch l r ihl ihr =>
    cases path with
    | nil => exact absurd h (by simp [entryAt])
    | cons b path =>
      cases b with
      | false =>
        rw [siblings, List.zip_cons_cons, pathDigest, ihl path h]
        rfl
      | true =>
        rw [siblings, List.zip_cons_cons, pathDigest, ihr path h]
        rfl

/-- Where an audit path that gives an entry the digest of a tree breaks the hash function. -/
def findPathBreak (hash : M → D) (code : NodeEncoding E M D K) (leafBreak : E → E → HashBreak M)
    (e : E) : HashTree E → List (Bool × D) → HashBreak M
  | empty, [] => .null (code.leaf e)
  | empty, (b, s) :: path => .null (turn code b (pathDigest hash code e path) s)
  | leaf e', [] => collideOr (code.leaf e) (code.leaf e') (leafBreak e e')
  | leaf e', (b, s) :: path =>
    .collision (code.leaf e') (turn code b (pathDigest hash code e path) s)
  | branch l r, [] =>
    .collision (code.leaf e) (code.branch (l.digest hash code) (r.digest hash code))
  | branch l r, (b, s) :: path =>
    collideOr (turn code b (pathDigest hash code e path) s)
      (code.branch (l.digest hash code) (r.digest hash code))
      (findPathBreak hash code leafBreak e (if b then r else l) path)

omit [DecidableEq M] in
lemma leaf_ne_turn (hcode : code.Separates hash leafBreak) (e : E) (b : Bool) (d d' : D) :
    code.leaf e ≠ turn code b d d' := by
  cases b with
  | false => exact hcode.leaf_ne_branch e d d'
  | true => exact hcode.leaf_ne_branch e d' d

/-- An audit path that gives an entry the digest of a tree leads to that entry, or breaks the hash
function. -/
theorem findPathBreak_valid (hcode : code.Separates hash leafBreak) {e : E} (t : HashTree E) :
    ∀ path : List (Bool × D),
      code.keep (pathDigest hash code e path) = code.keep (t.digest hash code) →
        t.entryAt (path.map Prod.fst) = some e ∨
          (findPathBreak hash code leafBreak e t path).Valid hash code.null code.keep := by
  induction t with
  | empty =>
    intro path hdigest
    cases path with
    | nil => exact .inr hdigest
    | cons step path => exact .inr hdigest
  | leaf e' =>
    intro path hdigest
    cases path with
    | nil =>
      by_cases he : e = e'
      · exact .inl (congrArg some he.symm)
      · exact .inr (collideOr_valid hdigest (hcode.leafBreak_valid he))
    | cons step path => exact .inr ⟨leaf_ne_turn hcode e' step.1 _ _, hdigest.symm⟩
  | branch l r ihl ihr =>
    intro path hdigest
    cases path with
    | nil => exact .inr ⟨hcode.leaf_ne_branch e _ _, hdigest⟩
    | cons step path =>
      obtain ⟨b, s⟩ := step
      by_cases hmessage : turn code b (pathDigest hash code e path) s =
          code.branch (l.digest hash code) (r.digest hash code)
      · -- the messages agree, so the path goes on below the branch
        cases b with
        | false =>
          refine (ihl path (hcode.branch_inj hmessage).1).imp id (fun hbreak => ?_)
          exact collideOr_valid hdigest (fun _ => hbreak)
        | true =>
          refine (ihr path (hcode.branch_inj hmessage).2).imp id (fun hbreak => ?_)
          exact collideOr_valid hdigest (fun _ => hbreak)
      · exact .inr (collideOr_valid hdigest (fun h => absurd h hmessage))

/-! ## Trees of constant depth -/

/-- The tree of a given depth with entries at its first leaves and nothing at the others. -/
def complete : ℕ → List E → HashTree E
  | 0, [] => empty
  | 0, e :: _ => leaf e
  | depth + 1, entries =>
    branch (complete depth (entries.take (2 ^ depth))) (complete depth (entries.drop (2 ^ depth)))

/-- The number that a path writes in binary. -/
def position : List Bool → ℕ
  | [] => 0
  | right :: path => (if right then 2 ^ path.length else 0) + position path

lemma position_lt (path : List Bool) : position path < 2 ^ path.length := by
  induction path with
  | nil => exact Nat.one_pos
  | cons right path ih =>
    rw [position, List.length_cons, Nat.pow_succ]
    split <;> omega

/-- A path of another length than the depth leads to no entry. -/
lemma length_eq_of_entryAt_complete {e : E} (depth : ℕ) : ∀ (entries : List E) (path : List Bool),
    (complete depth entries).entryAt path = some e → path.length = depth := by
  induction depth with
  | zero =>
    intro entries path h
    match entries, path with
    | _, [] => rfl
    | [], _ :: _ => exact absurd h (by simp [complete, entryAt])
    | _ :: _, _ :: _ => exact absurd h (by simp [complete, entryAt])
  | succ depth ih =>
    intro entries path h
    match path with
    | [] => exact absurd h (by simp [complete, entryAt])
    | false :: path => rw [List.length_cons, ih _ path h]
    | true :: path => rw [List.length_cons, ih _ path h]

/-- A path of the length of the depth leads to the entry at its position. -/
lemma entryAt_complete (path : List Bool) : ∀ entries : List E,
    (complete path.length entries).entryAt path = entries[position path]? := by
  induction path with
  | nil =>
    intro entries
    cases entries <;> rfl
  | cons right path ih =>
    intro entries
    have hlt := position_lt path
    cases right with
    | false =>
      rw [List.length_cons, complete, entryAt, ih, List.getElem?_take, if_pos hlt, position]
      simp
    | true =>
      rw [List.length_cons, complete, entryAt, ih, List.getElem?_drop, position]
      simp

end HashTree
