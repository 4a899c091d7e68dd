import FlowAudit.Decimal.Literal

set_option autoImplicit false

/-!
Finite doubles. The difference of two finite doubles is a number: it may be too large for a double and
so infinite, but it is never NaN (`isNaN_sub`).
-/
namespace FlowAudit.Decimal

open Float.Model

/-- The text spells a finite double. -/
def SpellsFinite (text : String) : Prop :=
  ∃ value, float? text.toList = some value ∧ value.isFinite = true

theorem spellsFinite_iff {text : String} {value : Float} (spells : float? text.toList = some value) :
    SpellsFinite text ↔ value.isFinite = true := by
  rw [SpellsFinite, spells]
  simp

instance (text : String) : Decidable (SpellsFinite text) :=
  decidable_of_iff ((float? text.toList).any Float.isFinite = true) (Option.any_eq_true _ _)

/-- Bits are those of a NaN only when their exponent is the largest one. -/
theorem isNaN_unpack_of_exponent_ne {bits : BitVec Format.binary64.numBits}
    (smaller : UnpackedFloat.unpackExponent bits ≠ -1#_) :
    (UnpackedFloat.unpack Format.binary64 bits).isNaN = false := by
  unfold UnpackedFloat.unpack
  dsimp only
  rw [if_neg smaller, apply_ite UnpackedFloat.isNaN, apply_dite UnpackedFloat.isNaN]
  -- No branch that is left makes a NaN.
  change (if _ then if _ : _ then false else false else false) = false
  rw [dite_eq_ite, ite_self, ite_self]

theorem isNaN_unpack_pack_finite (sign : UnpackedFloat.Sign) (mantissa : Nat) (exponent : Int)
    (positive : 0 < mantissa) :
    (UnpackedFloat.unpack Format.binary64
      (UnpackedFloat.pack Format.binary64 (.finite sign mantissa exponent positive))).isNaN = false := by
  unfold UnpackedFloat.pack
  dsimp only
  split
  · cases sign <;> rfl
  · rename_i bound
    split
    · apply isNaN_unpack_of_exponent_ne
      rw [UnpackedFloat.unpackExponent_packComponents]
      intro largest
      have value := congrArg BitVec.toNat largest
      simp only [BitVec.toNat_ofNat, BitVec.neg_one_eq_allOnes, BitVec.toNat_allOnes] at value
      omega
    · apply isNaN_unpack_of_exponent_ne
      rw [UnpackedFloat.unpackExponent_packComponents]
      decide

/-- Packing a number gives a number; one that is too large for a double becomes infinite. -/
theorem isNaN_unpack_pack {value : UnpackedFloat} (number : value.isNaN = false) :
    (Float.Model.pack value).unpack.isNaN = false := by
  cases value with
  | notANumber => cases number
  | infinity sign => cases sign <;> rfl
  | zero sign => cases sign <;> rfl
  | finite sign mantissa exponent positive =>
    exact isNaN_unpack_pack_finite sign mantissa exponent positive

theorem isNaN_round (sign : UnpackedFloat.Sign) (mantissa : Nat) (exponent : Int) :
    (UnpackedFloat.round Format.binary64 sign mantissa exponent).isNaN = false := by
  unfold UnpackedFloat.round UnpackedFloat.roundWithAccuracy
  rw [apply_dite UnpackedFloat.isNaN]
  exact dite_eq_ite.trans (ite_self false)

theorem isNaN_normalize (mantissa exponent : Int) (sign : UnpackedFloat.Sign) :
    (UnpackedFloat.normalize Format.binary64 mantissa exponent sign).isNaN = false := by
  unfold UnpackedFloat.normalize
  split
  · exact isNaN_round _ _ _
  · rfl
  · exact isNaN_round _ _ _

theorem isNaN_unpacked_sub {first second : UnpackedFloat} (left : first.isFinite = true)
    (right : second.isFinite = true) :
    (UnpackedFloat.sub Format.binary64 first second).isNaN = false := by
  cases first with
  | notANumber => cases left
  | infinity => cases left
  | zero sign =>
    cases second with
    | notANumber => cases right
    | infinity => cases right
    | zero sign' => cases sign <;> cases sign' <;> rfl
    | finite => rfl
  | finite =>
    cases second with
    | notANumber => cases right
    | infinity => cases right
    | zero => rfl
    | finite => exact isNaN_normalize _ _ _

/-- The difference of finite doubles is a number. -/
theorem isNaN_sub {first second : Float} (left : first.isFinite = true)
    (right : second.isFinite = true) : (first - second).isNaN = false :=
  isNaN_unpack_pack (isNaN_unpacked_sub left right)

end FlowAudit.Decimal
