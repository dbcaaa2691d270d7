namespace VirtualFs

/-- A finite sequence of bytes. -/
abbrev Bytes := List UInt8

namespace Text

/-- The UTF-8 bytes of a text. -/
def utf8 (s : String) : Bytes :=
  s.toUTF8.data.toList

/-- The number of UTF-8 bytes. -/
def byteLength (s : String) : Nat :=
  (utf8 s).length

/-- `s` comes before `t` in the order of their UTF-8 bytes. -/
def before (s t : String) : Bool :=
  decide (utf8 s < utf8 t)

theorem utf8_inj {s t : String} : utf8 s = utf8 t ↔ s = t := by
  constructor
  · intro h
    have hdata : s.toUTF8.data = t.toUTF8.data := Array.toList_inj.1 h
    have hbytes : s.toUTF8 = t.toUTF8 := ByteArray.ext hdata
    exact String.toByteArray_inj.1 hbytes
  · rintro rfl
    rfl

@[simp] theorem before_irrefl (s : String) : before s s = false := by
  simp [before, List.lt_irrefl]

theorem before_trans {s t u : String} (hst : before s t) (htu : before t u) : before s u := by
  simp only [before, decide_eq_true_eq] at *
  exact List.lt_trans hst htu

/-- Of two different texts one comes before the other. -/
theorem before_of_not {s t : String} (hst : before s t = false) (hne : s ≠ t) : before t s := by
  simp only [before, decide_eq_true_eq, decide_eq_false_iff_not] at *
  have hle : utf8 t ≤ utf8 s := List.not_lt.mp hst
  rcases List.le_iff_lt_or_eq.mp hle with hlt | heq
  · exact hlt
  · exact absurd (utf8_inj.mp heq).symm hne

end Text

end VirtualFs
