import Tqt.Foundation.Decimal

/-! Money as text, in the store and on the wire.

Both encoders normalize and write positional digits, so one value has one text, and the
text reads back as that value (`money_roundTrip`). -/
namespace Tqt.Money
open DecimalTuple

/-- `s` of a decimal. -/
def s (v : DecimalTuple) : String := v.normalize.positional

/-- `d` of a stored text; `none` is a text that is no number. -/
def d (v : String) : Option DecimalTuple := if v = "" then some ⟨false, 0, 0⟩ else parse v

/-- `_dec` of a decimal, the encoder of the client. -/
def dec (v : DecimalTuple) : String := v.normalize.positional

section
variable {x : DecimalTuple}

theorem d_s (x : DecimalTuple) : d (s x) = parse (s x) := by
  apply if_neg
  obtain ⟨sign, whole, fraction, htext, -, ⟨hwhole, -⟩, -⟩ := x.normalize.positional_positional
  intro hempty
  have hnil : (s x).toList = [] := by rw [hempty]; rfl
  rw [s, htext] at hnil
  simp [hwhole] at hnil

/-- The text is read back as the value. -/
theorem d_s_toRat (hx : x.Fits) : ∃ y, d (s x) = some y ∧ y.toRat = x.toRat := by
  obtain ⟨y, hy, hvalue⟩ := x.normalize.parse_positional
  exact ⟨y, (d_s x).trans hy, hvalue.trans hx.normalize.2.2⟩

/-- Values of one text are the same, and one value, not zero, has one text. -/
theorem s_eq_iff (hx : x.Fits) {y : DecimalTuple} (hy : y.Fits) (hne : x.toRat ≠ 0) :
    s x = s y ↔ x.toRat = y.toRat := by
  constructor
  · intro htext
    obtain ⟨z, hz, hvalue⟩ := d_s_toRat hx
    obtain ⟨z', hz', hvalue'⟩ := d_s_toRat hy
    rw [htext, hz'] at hz
    cases hz
    exact hvalue.symm.trans hvalue'
  · intro hvalue
    obtain ⟨hnormal, -, hxvalue⟩ := hx.normalize
    obtain ⟨hnormal', -, hyvalue⟩ := hy.normalize
    have heq : x.normalize = y.normalize := by
      apply hnormal.eq hnormal'
      · rwa [hxvalue]
      · rw [hxvalue, hvalue, hyvalue]
    rw [s, heq, s]

end

/-- **Stored money comes back**: of a decimal with at most 28 significant digits, the text is
plain, reads back as the value, and is that of another one, both not zero, exactly when they
are numerically equal. The text on the wire is the same. -/
theorem money_roundTrip {x : DecimalTuple} (hx : x.Fits) :
    (Positional (s x) ∧ (∃ y, d (s x) = some y ∧ y.toRat = x.toRat) ∧
      ∀ y : DecimalTuple, y.Fits → x.toRat ≠ 0 → y.toRat ≠ 0 → (s x = s y ↔ x.toRat = y.toRat)) ∧
    (Positional (dec x) ∧ (∃ y, d (dec x) = some y ∧ y.toRat = x.toRat) ∧
      ∀ y : DecimalTuple, y.Fits → x.toRat ≠ 0 → y.toRat ≠ 0 → (dec x = dec y ↔ x.toRat = y.toRat)) := by
  have hstored : Positional (s x) ∧ (∃ y, d (s x) = some y ∧ y.toRat = x.toRat) ∧
      ∀ y : DecimalTuple, y.Fits → x.toRat ≠ 0 → y.toRat ≠ 0 → (s x = s y ↔ x.toRat = y.toRat) :=
    ⟨x.normalize.positional_positional, d_s_toRat hx,
      fun _ hy hne _ => s_eq_iff hx hy hne⟩
  exact ⟨hstored, hstored⟩

/-- The amount -74321.123456789012345000, in a form with zeros at its end. -/
theorem money_roundTrip_tricky :
    Positional (s ⟨true, 74321123456789012345000, -18⟩) ∧
      (∃ y, d (s ⟨true, 74321123456789012345000, -18⟩) = some y ∧
        y.toRat = toRat ⟨true, 74321123456789012345000, -18⟩) ∧
      s ⟨true, 74321123456789012345000, -18⟩ = "-74321.123456789012345" := by
  have hfits : Fits ⟨true, 74321123456789012345000, -18⟩ :=
    ⟨74321123456789012345000, 0, by decide +kernel, by decide +kernel⟩
  obtain ⟨⟨htext, hback, -⟩, -⟩ := money_roundTrip hfits
  exact ⟨htext, hback, by decide +kernel⟩

end Tqt.Money
