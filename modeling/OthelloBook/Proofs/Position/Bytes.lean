import OthelloBook.Position.Reader
import Mathlib.Tactic

/-!
# Positions as bytes

Sixteen bytes hold the two masks of a position without loss, so that the stored bytes of different
positions differ.
-/
namespace OthelloBook

/-- A list whose items are all read without a fault is read item by item. -/
theorem mapM_eq_ok_map {α β ε : Type} {f : α → Except ε β} {g : α → β} {xs : List α}
    (h : ∀ x ∈ xs, f x = .ok (g x)) : xs.mapM f = .ok (xs.map g) := by
  induction xs with
  | nil => rfl
  | cons x xs ih =>
    obtain ⟨hx, hxs⟩ := List.forall_mem_cons.1 h
    rw [List.mapM_cons, hx, ih hxs]
    rfl

namespace Position

theorem ofMasks_eq_ok_iff {own opposing : Mask} {p : Position} :
    ofMasks own opposing = .ok p ↔ p.own = own ∧ p.opposing = opposing := by
  rw [ofMasks, ofMasks?]
  constructor
  · intro h
    split at h
    · rename_i q hq
      split at hq
      · cases hq
        cases h
        exact ⟨rfl, rfl⟩
      · cases hq
    · cases h
  · rintro ⟨rfl, rfl⟩
    rw [dif_pos p.disjoint]

theorem exists_ofMasks_eq_error_iff {own opposing : Mask} :
    (∃ e, ofMasks own opposing = .error e) ↔ own &&& opposing ≠ 0 := by
  rw [ofMasks, ofMasks?]
  by_cases h : own &&& opposing = 0 <;> simp [h]

theorem length_littleEndian (n v : ℕ) : (littleEndian n v).length = n := by
  induction n generalizing v with
  | zero => rfl
  | succ n ih => simp [littleEndian, ih]

theorem littleEndian_eq_ofFn (n v : ℕ) :
    littleEndian n v = List.ofFn fun i : Fin n => (v / 256 ^ i.val % 256).toUInt8 := by
  induction n generalizing v with
  | zero => rfl
  | succ n ih =>
    rw [littleEndian, ih, List.ofFn_succ]
    simp [Nat.div_div_eq_div_mul, pow_succ']

theorem ofLittleEndian_littleEndian (n v : ℕ) :
    ofLittleEndian (littleEndian n v) = v % 256 ^ n := by
  induction n generalizing v with
  | zero => simp [littleEndian, ofLittleEndian, Nat.mod_one]
  | succ n ih =>
    have hbyte : (v % 256).toUInt8.toNat = v % 256 := by simp
    rw [littleEndian, ofLittleEndian, ih, hbyte, pow_succ', Nat.mod_mul]

theorem toUInt64_ofLittleEndian (m : Mask) :
    (ofLittleEndian (littleEndian 8 m.toNat)).toUInt64 = m := by
  rw [ofLittleEndian_littleEndian, Nat.mod_eq_of_lt (lt_of_lt_of_eq m.toNat_lt (by decide))]
  exact UInt64.ofNat_toNat

/-- The bytes of a position are read back as it. -/
@[simp] theorem ofBytes_bytes (p : Position) : ofBytes p.bytes = .ok p := by
  have hown : p.bytes.take 8 = littleEndian 8 p.own.toNat := by
    rw [bytes, List.take_left' (length_littleEndian 8 _)]
  have hopp : p.bytes.drop 8 = littleEndian 8 p.opposing.toNat := by
    rw [bytes, List.drop_left' (length_littleEndian 8 _)]
  rw [ofBytes, if_neg (by simp [bytes, length_littleEndian]), hown, hopp,
    toUInt64_ofLittleEndian, toUInt64_ofLittleEndian, ofMasks, ofMasks?, dif_pos p.disjoint]

theorem bytes_inj {p q : Position} : p.bytes = q.bytes ↔ p = q := by
  constructor
  · intro h
    have hp := p.ofBytes_bytes
    rw [h, ofBytes_bytes, Except.ok.injEq] at hp
    exact hp.symm
  · rintro rfl
    rfl

theorem ofLittleEndian_lt (bs : List UInt8) : ofLittleEndian bs < 256 ^ bs.length := by
  induction bs with
  | nil => exact Nat.one_pos
  | cons b bs ih =>
    have hb : b.toNat < 256 := b.toNat_lt
    rw [ofLittleEndian, List.length_cons, pow_succ]
    omega

/-- The bytes of a number are those that it was read from. -/
theorem littleEndian_ofLittleEndian (bs : List UInt8) :
    littleEndian bs.length (ofLittleEndian bs) = bs := by
  induction bs with
  | nil => rfl
  | cons b bs ih =>
    have hb : b.toNat < 256 := b.toNat_lt
    have hlow : (b.toNat + 256 * ofLittleEndian bs) % 256 = b.toNat := by omega
    have hhigh : (b.toNat + 256 * ofLittleEndian bs) / 256 = ofLittleEndian bs := by omega
    rw [List.length_cons, ofLittleEndian, littleEndian, hlow, hhigh, ih]
    congr 1
    exact UInt8.ofNat_toNat

/-- Eight bytes fit a word. -/
theorem toNat_toUInt64_ofLittleEndian {bs : List UInt8} (h : bs.length = 8) :
    (ofLittleEndian bs).toUInt64.toNat = ofLittleEndian bs := by
  have hlt := ofLittleEndian_lt bs
  rw [h] at hlt
  exact UInt64.toNat_ofNat_of_lt' hlt

/-- The bytes of a position are the only ones that are read as it. -/
theorem ofBytes_eq_ok_iff {bs : List UInt8} {p : Position} : ofBytes bs = .ok p ↔ p.bytes = bs := by
  constructor
  · intro h
    rw [ofBytes] at h
    split at h
    · cases h
    rename_i hlength
    obtain ⟨hown, hopposing⟩ := ofMasks_eq_ok_iff.1 h
    have hfirst : (bs.take 8).length = 8 := by simp; omega
    have hsecond : (bs.drop 8).length = 8 := by simp; omega
    have hback := littleEndian_ofLittleEndian (bs.take 8)
    have hback' := littleEndian_ofLittleEndian (bs.drop 8)
    rw [hfirst] at hback
    rw [hsecond] at hback'
    rw [bytes, hown, hopposing, toNat_toUInt64_ofLittleEndian hfirst,
      toNat_toUInt64_ofLittleEndian hsecond, hback, hback', List.take_append_drop]
  · rintro rfl
    exact p.ofBytes_bytes

/-- Bytes are refused for their number, or for a square that is in both halves. -/
theorem exists_ofBytes_eq_error_iff {bs : List UInt8} :
    (∃ e, ofBytes bs = .error e) ↔
      bs.length ≠ 16 ∨ ofLittleEndian (bs.take 8) &&& ofLittleEndian (bs.drop 8) ≠ 0 := by
  by_cases hlength : bs.length = 16
  · have hmasks : (ofLittleEndian (bs.take 8)).toUInt64 &&& (ofLittleEndian (bs.drop 8)).toUInt64 = 0 ↔
        ofLittleEndian (bs.take 8) &&& ofLittleEndian (bs.drop 8) = 0 := by
      rw [← UInt64.toNat_inj, UInt64.toNat_and, toNat_toUInt64_ofLittleEndian (by simp [hlength]),
        toNat_toUInt64_ofLittleEndian (by simp [hlength])]
      rfl
    rw [ofBytes, if_neg (by simpa using hlength), exists_ofMasks_eq_error_iff, ne_eq, hmasks]
    simp [hlength]
  · rw [ofBytes, if_pos hlength]
    simp [hlength]

end Position
end OthelloBook
