import JxtaC.Message
import JxtaC.Peerview
import Mathlib.Data.Nat.Size
import Mathlib.Tactic.Ring

/-
  The peer that an expression is replicated to (jxta_srdi_service_ref.c).
  SHA-1 is a parameter and a BIGNUM is a natural number; the position has the size of an index of
  the view. The divisor has one bit more than the digest, whatever that has: so the digests are not
  spread over the view, of which they take the upper half (`half_le_replicaPosition`). Only a digest
  with all 160 bits gets the position that is its own (`replicaPosition_iff`).
-/

namespace JxtaC.Replica

open Lib

/-- `SHA_DIGEST_LENGTH`. -/
def shaDigestLength : Nat := 20

/-- The position that `getReplicaPeer` computes from a digest. -/
def replicaPosition (hash : List Byte) (rpvSize : Nat) : Nat :=
  let bnHash := ofBigEndian hash
  let significantBits := Nat.size bnHash
  let sizeOfHashSpace := 1 <<< significantBits
  let bnTotalSizeOfSpace := bnHash * rpvSize
  bnTotalSizeOfSpace / sizeOfHashSpace

/-- The digest of an expression. -/
def digest (sha1 : List Byte → Fin shaDigestLength → Byte) (expression : CString) : List Byte :=
  List.ofFn (sha1 expression.bytes)

/-- `getReplicaPeer`, at time `now`: the peer is taken out of a copy of the local view. -/
def getReplicaPeer (sha1 : List Byte → Fin shaDigestLength → Byte) (rpv : Peerview) (now : Nat)
    (expression : CString) : Peerview × Option Pve :=
  let (rpv, localView) := rpv.getLocalview now
  (rpv, localView[replicaPosition (digest sha1 expression) localView.length]?)

/-! ## the position -/

/-- The position of a digest in the space of all of them, cut into `n` parts. -/
def share (n d : Nat) : Nat := d * n / 2 ^ 160

theorem replicaPosition_eq (hash : List Byte) (n : Nat) :
    replicaPosition hash n = ofBigEndian hash * n / 2 ^ Nat.size (ofBigEndian hash) := by
  unfold replicaPosition
  dsimp only
  rw [Nat.one_shiftLeft]

theorem replicaPosition_lt (hash : List Byte) {n : Nat} (hn : 0 < n) :
    replicaPosition hash n < n := by
  rw [replicaPosition_eq]
  apply Nat.div_lt_of_lt_mul
  exact Nat.mul_lt_mul_of_pos_right (Nat.lt_size_self _) hn

/-- The lower half of the view is left to the digest 0. -/
theorem half_le_replicaPosition {hash : List Byte} (h : ofBigEndian hash ≠ 0) (n : Nat) :
    n / 2 ≤ replicaPosition hash n := by
  obtain ⟨k, hk⟩ := Nat.exists_eq_succ_of_ne_zero
    (Nat.pos_iff_ne_zero.mp (Nat.size_pos.mpr (Nat.pos_of_ne_zero h)))
  have hle : 2 ^ k ≤ ofBigEndian hash := Nat.lt_size.mp (by omega)
  rw [replicaPosition_eq, hk, Nat.le_div_iff_mul_le (Nat.pow_pos (by decide)), Nat.pow_succ]
  calc n / 2 * (2 ^ k * 2) = 2 ^ k * (n / 2 * 2) := by ring
    _ ≤ 2 ^ k * n := Nat.mul_le_mul_left _ (Nat.div_mul_le_self n 2)
    _ ≤ ofBigEndian hash * n := Nat.mul_le_mul_right n hle

/-- The position is that of the digest exactly if there is one position, or the digest is 0 or has
    its first bit set. -/
theorem replicaPosition_iff_share {hash : List Byte} (hlen : hash.length = shaDigestLength) {n : Nat}
    (hn : 0 < n) :
    replicaPosition hash n = share n (ofBigEndian hash) ↔
      n = 1 ∨ ofBigEndian hash = 0 ∨ 2 ^ 159 ≤ ofBigEndian hash := by
  have hlt : ofBigEndian hash < 2 ^ 160 := by
    have h := ofBigEndian_lt hash
    rw [hlen] at h
    exact h
  constructor
  · intro h
    by_contra hnot
    rw [not_or, not_or, Nat.not_le] at hnot
    obtain ⟨hone, hzero, hlow⟩ := hnot
    -- twice the share is no more than the position, which is not 0
    have hhalf := half_le_replicaPosition hzero n
    have hsize : Nat.size (ofBigEndian hash) ≤ 159 := Nat.size_le.mpr hlow
    have hdouble : share n (ofBigEndian hash) * 2 ≤ replicaPosition hash n := by
      rw [replicaPosition_eq, Nat.le_div_iff_mul_le (Nat.pow_pos (by decide)), share]
      calc ofBigEndian hash * n / 2 ^ 160 * 2 * 2 ^ Nat.size (ofBigEndian hash)
          ≤ ofBigEndian hash * n / 2 ^ 160 * 2 * 2 ^ 159 :=
            Nat.mul_le_mul_left _ (Nat.pow_le_pow_right (by decide) hsize)
        _ = ofBigEndian hash * n / 2 ^ 160 * 2 ^ 160 := by rw [Nat.mul_assoc, ← Nat.pow_succ']
        _ ≤ ofBigEndian hash * n := Nat.div_mul_le_self _ _
    omega
  · rintro (rfl | hzero | hhigh)
    · have hpos := replicaPosition_lt hash Nat.one_pos
      have hshare : share 1 (ofBigEndian hash) = 0 := by
        rw [share, Nat.mul_one]
        exact Nat.div_eq_of_lt hlt
      omega
    · rw [replicaPosition_eq, hzero, share, Nat.zero_mul, Nat.zero_div, Nat.zero_div]
    · have hsize : Nat.size (ofBigEndian hash) = 160 := by
        have hle := Nat.size_le.mpr hlt
        have hge := Nat.lt_size.mpr hhigh
        omega
      rw [replicaPosition_eq, hsize, share]

/-- A peer is selected for every expression, and the share of its position has the digest in it
    exactly if there is no other position, or the digest is 0 or has its first bit set. -/
theorem replica_share_iff (sha1 : List Byte → Fin shaDigestLength → Byte) (rpv : Peerview)
    (now : Nat) (expression : CString) (hview : (rpv.getLocalview now).2 ≠ []) :
    let localView := (rpv.getLocalview now).2
    let d := ofBigEndian (digest sha1 expression)
    let pos := replicaPosition (digest sha1 expression) localView.length
    pos < localView.length ∧ (getReplicaPeer sha1 rpv now expression).2 = localView[pos]? ∧
      (pos = share localView.length d ↔ localView.length = 1 ∨ d = 0 ∨ 2 ^ 159 ≤ d) := by
  have hpos := List.length_pos_iff.mpr hview
  have hlen : (digest sha1 expression).length = shaDigestLength := List.length_ofFn
  exact ⟨replicaPosition_lt _ hpos, rfl, replicaPosition_iff_share hlen hpos⟩

/-- Two peers, the second added by a message. -/
def twoPeers : Peerview :=
  Peerview.run (Peerview.init (text "a") 1000) [.start, .message (text "b") false false false 0]

/-- SHA-1 of `1`. -/
def digestOfOne : Fin shaDigestLength → Byte := fun i =>
  [0x35, 0x6a, 0x19, 0x2b, 0x79, 0x13, 0xb0, 0x4c, 0x54, 0x57, 0x4d, 0x18, 0xc2, 0x8d, 0x46, 0xe6,
    0x39, 0x54, 0x28, 0xab].getD i 0

/-- `replica_share_iff` at an expression whose digest begins with two zero bits. -/
theorem replica_share_iff_one : let localView := (twoPeers.getLocalview 0).2
    let d := ofBigEndian (digest (fun _ => digestOfOne) (.ofBuffer (text "1")))
    let pos := replicaPosition (digest (fun _ => digestOfOne) (.ofBuffer (text "1"))) localView.length
    pos < localView.length ∧
      (getReplicaPeer (fun _ => digestOfOne) twoPeers 0 (.ofBuffer (text "1"))).2 = localView[pos]? ∧
      (pos = share localView.length d ↔ localView.length = 1 ∨ d = 0 ∨ 2 ^ 159 ≤ d) :=
  replica_share_iff _ _ _ _ (by decide)

/-- It is in the share of the first peer, and the second is selected. -/
theorem not_replica_share :
    (getReplicaPeer (fun _ => digestOfOne) twoPeers 0 (.ofBuffer (text "1"))).2 ≠
      (twoPeers.getLocalview 0).2[share (twoPeers.getLocalview 0).2.length
        (ofBigEndian (digest (fun _ => digestOfOne) (.ofBuffer (text "1"))))]? := by
  decide +kernel

end JxtaC.Replica
