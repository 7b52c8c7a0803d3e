import ClassFormat.Text.ModifiedUtf8

/-!
# The units of modified UTF-8

A unit is written in one of three forms (`Form`), of one to three bytes, and each form is how its
unit is written. At the head of bytes stands either a form or something that no unit is written as
(`Unwritten`), never both: reading takes the first for its unit (`Form.units?_append`) and gives up
on the second (`Unwritten.unitsOnto?_eq_none`). Statements about all bytes go form by form
(`form_induction`).
-/

set_option autoImplicit false
set_option relaxedAutoImplicit false

namespace ClassFormat.Text.ModifiedUtf8

/-! ### The forms of a unit -/

/-- The bytes that continue a form, and begin none. -/
def IsContinuation (byte : UInt8) : Prop :=
  0x80 ≤ byte ∧ byte < 0xc0

theorem continuation?_of_isContinuation {byte : UInt8} (hbyte : IsContinuation byte) :
    continuation? byte = some (byte.toNat - 0x80) :=
  if_pos hbyte

theorem continuation?_of_not {byte : UInt8} (hbyte : ¬IsContinuation byte) :
    continuation? byte = none :=
  if_neg hbyte

theorem IsContinuation.toNat_mem {byte : UInt8} (hbyte : IsContinuation byte) :
    0x80 ≤ byte.toNat ∧ byte.toNat < 0xc0 :=
  ⟨UInt8.le_iff_toNat_le.mp hbyte.1, UInt8.lt_iff_toNat_lt.mp hbyte.2⟩

/-- The unit that two bytes stand for. -/
def unitOfTwo (lead next : UInt8) : Nat :=
  (lead.toNat - 0xc0) * 0x40 + (next.toNat - 0x80)

/-- The unit that three bytes stand for. -/
def unitOfThree (lead next last : UInt8) : Nat :=
  (lead.toNat - 0xe0) * 0x1000 + (next.toNat - 0x80) * 0x40 + (last.toNat - 0x80)

/-- The forms of one to three bytes, with the unit that each is the form of. -/
inductive Form : Nat → List UInt8 → Prop where
  | one {byte : UInt8} (hzero : byte ≠ 0) (hbyte : byte < 0x80) : Form byte.toNat [byte]
  /-- Zero is written in two bytes. -/
  | two {lead next : UInt8} (hlead : 0xc0 ≤ lead) (hlead' : lead < 0xe0)
      (hnext : IsContinuation next)
      (hunit : unitOfTwo lead next = 0 ∨ 0x80 ≤ unitOfTwo lead next) :
      Form (unitOfTwo lead next) [lead, next]
  | three {lead next last : UInt8} (hlead : 0xe0 ≤ lead) (hlead' : lead < 0xf0)
      (hnext : IsContinuation next) (hlast : IsContinuation last)
      (hunit : 0x800 ≤ unitOfThree lead next last) :
      Form (unitOfThree lead next last) [lead, next, last]

/-- A form is how its unit is written. -/
theorem Form.encodeUnit_eq {unit : Nat} {bytes : List UInt8} (hform : Form unit bytes) :
    unit < 0x10000 ∧ encodeUnit unit = bytes := by
  cases hform with
  | @one byte hzero hbyte =>
    have hlt : byte.toNat < 0x80 := UInt8.lt_iff_toNat_lt.mp hbyte
    have hpositive : byte.toNat ≠ 0 := fun h ↦ hzero (UInt8.toNat_inj.mp h)
    exact ⟨by omega, by rw [encodeUnit, if_pos ⟨hpositive, hlt⟩, UInt8.ofNat_toNat]⟩
  | @two lead next hlead hlead' hnext hunit =>
    have hge : 0xc0 ≤ lead.toNat := UInt8.le_iff_toNat_le.mp hlead
    have hlt : lead.toNat < 0xe0 := UInt8.lt_iff_toNat_lt.mp hlead'
    obtain ⟨hnext, hnext'⟩ := hnext.toNat_mem
    have hvalue : unitOfTwo lead next = (lead.toNat - 0xc0) * 0x40 + (next.toNat - 0x80) := rfl
    have hfirst : 0xc0 + unitOfTwo lead next / 0x40 = lead.toNat := by omega
    have hsecond : 0x80 + unitOfTwo lead next % 0x40 = next.toNat := by omega
    refine ⟨by omega, ?_⟩
    rw [encodeUnit, if_neg (by omega), if_pos (by omega), hfirst, hsecond, UInt8.ofNat_toNat,
      UInt8.ofNat_toNat]
  | @three lead next last hlead hlead' hnext hlast hunit =>
    have hge : 0xe0 ≤ lead.toNat := UInt8.le_iff_toNat_le.mp hlead
    have hlt : lead.toNat < 0xf0 := UInt8.lt_iff_toNat_lt.mp hlead'
    obtain ⟨hnext, hnext'⟩ := hnext.toNat_mem
    obtain ⟨hlast, hlast'⟩ := hlast.toNat_mem
    have hvalue : unitOfThree lead next last =
      (lead.toNat - 0xe0) * 0x1000 + (next.toNat - 0x80) * 0x40 + (last.toNat - 0x80) := rfl
    have hfirst : 0xe0 + unitOfThree lead next last / 0x1000 = lead.toNat := by omega
    have hsecond : 0x80 + unitOfThree lead next last / 0x40 % 0x40 = next.toNat := by omega
    have hthird : 0x80 + unitOfThree lead next last % 0x40 = last.toNat := by omega
    refine ⟨by omega, ?_⟩
    rw [encodeUnit, if_neg (by omega), if_neg (by omega), hfirst, hsecond, hthird,
      UInt8.ofNat_toNat, UInt8.ofNat_toNat, UInt8.ofNat_toNat]

theorem Form.length_pos {unit : Nat} {bytes : List UInt8} (hform : Form unit bytes) :
    0 < bytes.length := by
  cases hform <;> exact Nat.succ_pos _

/-! ### The forms in which units are written -/

theorem isContinuation_ofNat (number : Nat) :
    IsContinuation (UInt8.ofNat (0x80 + number % 0x40)) := by
  have hvalue : (UInt8.ofNat (0x80 + number % 0x40)).toNat = 0x80 + number % 0x40 :=
    UInt8.toNat_ofNat_of_lt' (by omega : _ < 0x100)
  simp only [IsContinuation, UInt8.le_iff_toNat_le, UInt8.lt_iff_toNat_lt, hvalue,
    UInt8.reduceToNat]
  omega

theorem form_one {unit : Nat} (hzero : unit ≠ 0) (hunit : unit < 0x80) :
    Form unit [UInt8.ofNat unit] := by
  have hvalue : (UInt8.ofNat unit).toNat = unit := UInt8.toNat_ofNat_of_lt' (by omega : _ < 0x100)
  have hbyte : UInt8.ofNat unit ≠ 0 := by
    intro hbyte
    rw [hbyte] at hvalue
    exact hzero hvalue.symm
  have hlt : UInt8.ofNat unit < 0x80 := by
    rw [UInt8.lt_iff_toNat_lt, hvalue]
    exact hunit
  have hform := Form.one hbyte hlt
  rwa [hvalue] at hform

theorem form_two {unit : Nat} (hunit : unit = 0 ∨ 0x80 ≤ unit) (hlimit : unit < 0x800) :
    Form unit [UInt8.ofNat (0xc0 + unit / 0x40), UInt8.ofNat (0x80 + unit % 0x40)] := by
  have hlead : (UInt8.ofNat (0xc0 + unit / 0x40)).toNat = 0xc0 + unit / 0x40 :=
    UInt8.toNat_ofNat_of_lt' (by omega : _ < 0x100)
  have hnext : (UInt8.ofNat (0x80 + unit % 0x40)).toNat = 0x80 + unit % 0x40 :=
    UInt8.toNat_ofNat_of_lt' (by omega : _ < 0x100)
  have hvalue : unitOfTwo (.ofNat (0xc0 + unit / 0x40)) (.ofNat (0x80 + unit % 0x40)) = unit := by
    unfold unitOfTwo
    rw [hlead, hnext, Nat.add_sub_cancel_left, Nat.add_sub_cancel_left, Nat.div_add_mod']
  have hge : (0xc0 : UInt8) ≤ .ofNat (0xc0 + unit / 0x40) := by
    simp only [UInt8.le_iff_toNat_le, hlead, UInt8.reduceToNat]
    omega
  have hlt : UInt8.ofNat (0xc0 + unit / 0x40) < 0xe0 := by
    simp only [UInt8.lt_iff_toNat_lt, hlead, UInt8.reduceToNat]
    omega
  have hform := Form.two hge hlt (isContinuation_ofNat unit) (by rwa [hvalue])
  rwa [hvalue] at hform

theorem form_three {unit : Nat} (hunit : 0x800 ≤ unit) (hlimit : unit < 0x10000) :
    Form unit [UInt8.ofNat (0xe0 + unit / 0x1000), UInt8.ofNat (0x80 + unit / 0x40 % 0x40),
      UInt8.ofNat (0x80 + unit % 0x40)] := by
  have hlead : (UInt8.ofNat (0xe0 + unit / 0x1000)).toNat = 0xe0 + unit / 0x1000 :=
    UInt8.toNat_ofNat_of_lt' (by omega : _ < 0x100)
  have hnext : (UInt8.ofNat (0x80 + unit / 0x40 % 0x40)).toNat = 0x80 + unit / 0x40 % 0x40 :=
    UInt8.toNat_ofNat_of_lt' (by omega : _ < 0x100)
  have hlast : (UInt8.ofNat (0x80 + unit % 0x40)).toNat = 0x80 + unit % 0x40 :=
    UInt8.toNat_ofNat_of_lt' (by omega : _ < 0x100)
  have hvalue : unitOfThree (.ofNat (0xe0 + unit / 0x1000)) (.ofNat (0x80 + unit / 0x40 % 0x40))
      (.ofNat (0x80 + unit % 0x40)) = unit := by
    unfold unitOfThree
    simp only [hlead, hnext, hlast, Nat.add_sub_cancel_left]
    omega
  have hge : (0xe0 : UInt8) ≤ .ofNat (0xe0 + unit / 0x1000) := by
    simp only [UInt8.le_iff_toNat_le, hlead, UInt8.reduceToNat]
    omega
  have hlt : UInt8.ofNat (0xe0 + unit / 0x1000) < 0xf0 := by
    simp only [UInt8.lt_iff_toNat_lt, hlead, UInt8.reduceToNat]
    omega
  have hform := Form.three hge hlt (isContinuation_ofNat (unit / 0x40)) (isContinuation_ofNat unit)
    (by rwa [hvalue])
  rwa [hvalue] at hform

/-- Every unit is written in one of the forms. -/
theorem form_encodeUnit {unit : Nat} (hunit : unit < 0x10000) : Form unit (encodeUnit unit) := by
  rw [encodeUnit]
  by_cases hone : unit ≠ 0 ∧ unit < 0x80
  · rw [if_pos hone]
    exact form_one hone.1 hone.2
  rw [if_neg hone]
  by_cases htwo : unit < 0x800
  · rw [if_pos htwo]
    exact form_two (by omega) htwo
  · rw [if_neg htwo]
    exact form_three (by omega) hunit

/-! ### The reading of units -/

theorem unitsOnto?_of_one {lead : UInt8} (hzero : lead ≠ 0) (hlead : lead < 0x80)
    (done : List Nat) (rest : List UInt8) :
    unitsOnto? done (lead :: rest) = unitsOnto? (lead.toNat :: done) rest := by
  rw [unitsOnto?.eq_def]
  exact (if_neg hzero).trans (if_pos hlead)

/-- A leading byte of two bytes is neither zero nor a unit by itself, nor a continuation. -/
theorem unitsOnto?_of_two {lead : UInt8} (hlead : 0xc0 ≤ lead) (hlead' : lead < 0xe0)
    (done : List Nat) (rest : List UInt8) :
    unitsOnto? done (lead :: rest) =
      match rest with
      | next :: rest =>
        match twoByteUnit? lead next with
        | some unit => unitsOnto? (unit :: done) rest
        | none => none
      | [] => none := by
  have hzero : lead ≠ 0 := by
    rintro rfl
    exact absurd hlead (by decide)
  have hone : ¬lead < 0x80 := UInt8.not_lt.mpr (UInt8.le_trans (by decide) hlead)
  rw [unitsOnto?.eq_def]
  exact (if_neg hzero).trans ((if_neg hone).trans
    ((if_neg (UInt8.not_lt.mpr hlead)).trans (if_pos hlead')))

theorem unitsOnto?_of_three {lead : UInt8} (hlead : 0xe0 ≤ lead) (hlead' : lead < 0xf0)
    (done : List Nat) (rest : List UInt8) :
    unitsOnto? done (lead :: rest) =
      match rest with
      | next :: last :: rest =>
        match threeByteUnit? lead next last with
        | some unit => unitsOnto? (unit :: done) rest
        | none => none
      | _ => none := by
  have hzero : lead ≠ 0 := by
    rintro rfl
    exact absurd hlead (by decide)
  have hone : ¬lead < 0x80 := UInt8.not_lt.mpr (UInt8.le_trans (by decide) hlead)
  have hcontinuation : ¬lead < 0xc0 := UInt8.not_lt.mpr (UInt8.le_trans (by decide) hlead)
  rw [unitsOnto?.eq_def]
  exact (if_neg hzero).trans ((if_neg hone).trans ((if_neg hcontinuation).trans
    ((if_neg (UInt8.not_lt.mpr hlead)).trans (if_pos hlead'))))

theorem twoByteUnit?_of_isContinuation {next : UInt8} (hnext : IsContinuation next)
    (lead : UInt8) :
    twoByteUnit? lead next =
      if unitOfTwo lead next = 0 ∨ 0x80 ≤ unitOfTwo lead next then some (unitOfTwo lead next)
      else none := by
  unfold unitOfTwo
  rw [twoByteUnit?, continuation?_of_isContinuation hnext, Option.bind_eq_bind, Option.bind_some]

theorem twoByteUnit?_of_not {next : UInt8} (hnext : ¬IsContinuation next) (lead : UInt8) :
    twoByteUnit? lead next = none := by
  rw [twoByteUnit?, continuation?_of_not hnext]
  rfl

theorem threeByteUnit?_of_isContinuation {next last : UInt8} (hnext : IsContinuation next)
    (hlast : IsContinuation last) (lead : UInt8) :
    threeByteUnit? lead next last =
      if 0x800 ≤ unitOfThree lead next last then some (unitOfThree lead next last) else none := by
  unfold unitOfThree
  rw [threeByteUnit?, continuation?_of_isContinuation hnext,
    continuation?_of_isContinuation hlast, Option.bind_eq_bind, Option.bind_some,
    Option.bind_some]

theorem threeByteUnit?_of_not {next last : UInt8}
    (hnot : ¬IsContinuation next ∨ ¬IsContinuation last) (lead : UInt8) :
    threeByteUnit? lead next last = none := by
  by_cases hnext : IsContinuation next
  · have hlast := hnot.resolve_left (not_not_intro hnext)
    rw [threeByteUnit?, continuation?_of_isContinuation hnext, continuation?_of_not hlast]
    rfl
  · rw [threeByteUnit?, continuation?_of_not hnext]
    rfl

/-- Reading takes a form as its unit. -/
theorem Form.unitsOnto?_append {unit : Nat} {bytes : List UInt8} (hform : Form unit bytes)
    (done : List Nat) (rest : List UInt8) :
    unitsOnto? done (bytes ++ rest) = unitsOnto? (unit :: done) rest := by
  cases hform with
  | one hzero hbyte => exact unitsOnto?_of_one hzero hbyte done rest
  | @two lead next hlead hlead' hnext hunit =>
    have htwo : twoByteUnit? lead next = some (unitOfTwo lead next) := by
      rw [twoByteUnit?_of_isContinuation hnext, if_pos hunit]
    rw [List.cons_append, unitsOnto?_of_two hlead hlead', List.singleton_append]
    simp only [htwo]
  | @three lead next last hlead hlead' hnext hlast hunit =>
    have hthree : threeByteUnit? lead next last = some (unitOfThree lead next last) := by
      rw [threeByteUnit?_of_isContinuation hnext hlast, if_pos hunit]
    rw [List.cons_append, unitsOnto?_of_three hlead hlead', List.cons_append,
      List.singleton_append]
    simp only [hthree]

/-- Bytes that begin with the form of no unit. -/
inductive Unwritten : List UInt8 → Prop where
  | zero (rest : List UInt8) : Unwritten (0 :: rest)
  /-- A continuation that no first byte asks for. -/
  | stray {byte : UInt8} (hbyte : IsContinuation byte) (rest : List UInt8) :
      Unwritten (byte :: rest)
  /-- The first byte of four, or of none. -/
  | fourBytes {lead : UInt8} (hlead : 0xf0 ≤ lead) (rest : List UInt8) : Unwritten (lead :: rest)
  /-- Fewer continuations than the first byte asks for. -/
  | missing {lead : UInt8} (following rest : List UInt8) (hlead : 0xc0 ≤ lead)
      (hlead' : lead < 0xf0) (hfew : following.length < if lead < 0xe0 then 1 else 2)
      (hfollowing : ∀ byte ∈ following, IsContinuation byte)
      (hrest : ∀ byte ∈ rest.head?, ¬IsContinuation byte) : Unwritten (lead :: (following ++ rest))
  /-- Two bytes for a unit of one, other than zero. -/
  | overlongTwo {lead next : UInt8} (hlead : lead = 0xc0 ∧ next ≠ 0x80 ∨ lead = 0xc1)
      (hnext : IsContinuation next) (rest : List UInt8) : Unwritten (lead :: next :: rest)
  /-- Three bytes for a unit of one or two. -/
  | overlongThree {next last : UInt8} (hnext : IsContinuation next) (hnext' : next < 0xa0)
      (hlast : IsContinuation last) (rest : List UInt8) : Unwritten (0xe0 :: next :: last :: rest)

theorem form_or_unwritten_of_two {lead : UInt8} (hlead : 0xc0 ≤ lead) (hlead' : lead < 0xe0)
    (rest : List UInt8) :
    (∃ unit bytes behind, Form unit bytes ∧ lead :: rest = bytes ++ behind) ∨
      Unwritten (lead :: rest) := by
  have hbelow : lead < 0xf0 := UInt8.lt_trans hlead' (by decide)
  have hfew : ([] : List UInt8).length < if lead < 0xe0 then 1 else 2 := by
    rw [if_pos hlead']
    exact Nat.one_pos
  cases rest with
  | nil => exact .inr (.missing [] [] hlead hbelow hfew (by simp) (by simp))
  | cons next rest =>
    by_cases hnext : IsContinuation next
    · by_cases hunit : unitOfTwo lead next = 0 ∨ 0x80 ≤ unitOfTwo lead next
      · exact .inl ⟨_, _, rest, .two hlead hlead' hnext hunit, rfl⟩
      · refine .inr (.overlongTwo ?_ hnext rest)
        have hge : 0xc0 ≤ lead.toNat := UInt8.le_iff_toNat_le.mp hlead
        have hvalue : unitOfTwo lead next = (lead.toNat - 0xc0) * 0x40 + (next.toNat - 0x80) := rfl
        obtain heq | heq : lead.toNat = 0xc0 ∨ lead.toNat = 0xc1 := by omega
        · refine .inl ⟨UInt8.toNat_inj.mp heq, fun hfirst ↦ ?_⟩
          have hfirst : next.toNat = 0x80 := congrArg UInt8.toNat hfirst
          omega
        · exact .inr (UInt8.toNat_inj.mp heq)
    · exact .inr (.missing [] (next :: rest) hlead hbelow hfew (by simp) (by simpa using hnext))

theorem form_or_unwritten_of_three {lead : UInt8} (hlead : 0xe0 ≤ lead) (hlead' : lead < 0xf0)
    (rest : List UInt8) :
    (∃ unit bytes behind, Form unit bytes ∧ lead :: rest = bytes ++ behind) ∨
      Unwritten (lead :: rest) := by
  have habove : 0xc0 ≤ lead := UInt8.le_trans (by decide) hlead
  have hasked : (if lead < 0xe0 then 1 else 2) = 2 := if_neg (UInt8.not_lt.mpr hlead)
  cases rest with
  | nil => exact .inr (.missing [] [] habove hlead' (by simp [hasked]) (by simp) (by simp))
  | cons next rest =>
    by_cases hnext : IsContinuation next
    · cases rest with
      | nil =>
        exact .inr (.missing [next] [] habove hlead' (by simp [hasked]) (by simpa using hnext)
          (by simp))
      | cons last rest =>
        by_cases hlast : IsContinuation last
        · by_cases hunit : 0x800 ≤ unitOfThree lead next last
          · exact .inl ⟨_, _, rest, .three hlead hlead' hnext hlast hunit, rfl⟩
          · have hge : 0xe0 ≤ lead.toNat := UInt8.le_iff_toNat_le.mp hlead
            have hvalue : unitOfThree lead next last =
              (lead.toNat - 0xe0) * 0x1000 + (next.toNat - 0x80) * 0x40 + (last.toNat - 0x80) := rfl
            obtain rfl : lead = 0xe0 := UInt8.toNat_inj.mp (by omega : lead.toNat = 0xe0)
            have hnext' : next < 0xa0 :=
              UInt8.lt_iff_toNat_lt.mpr (by omega : next.toNat < 0xa0)
            exact .inr (.overlongThree hnext hnext' hlast rest)
        · exact .inr (.missing [next] (last :: rest) habove hlead' (by simp [hasked])
            (by simpa using hnext) (by simpa using hlast))
    · exact .inr (.missing [] (next :: rest) habove hlead' (by simp [hasked]) (by simp)
        (by simpa using hnext))

/-- Bytes are either none, or a form and what is behind it, or begin with the form of no unit. -/
theorem form_or_unwritten (lead : UInt8) (rest : List UInt8) :
    (∃ unit bytes behind, Form unit bytes ∧ lead :: rest = bytes ++ behind) ∨
      Unwritten (lead :: rest) := by
  by_cases hzero : lead = 0
  · exact .inr (hzero ▸ .zero rest)
  by_cases hone : lead < 0x80
  · exact .inl ⟨_, _, rest, .one hzero hone, rfl⟩
  by_cases hstray : lead < 0xc0
  · exact .inr (.stray ⟨UInt8.not_lt.mp hone, hstray⟩ rest)
  by_cases htwo : lead < 0xe0
  · exact form_or_unwritten_of_two (UInt8.not_lt.mp hstray) htwo rest
  by_cases hthree : lead < 0xf0
  · exact form_or_unwritten_of_three (UInt8.not_lt.mp htwo) hthree rest
  · exact .inr (.fourBytes (UInt8.not_lt.mp hthree) rest)

/-- Reading gives up on bytes that begin with the form of no unit. -/
theorem Unwritten.unitsOnto?_eq_none {bytes : List UInt8} (hbytes : Unwritten bytes)
    (done : List Nat) : unitsOnto? done bytes = none := by
  cases hbytes with
  | zero rest =>
    rw [unitsOnto?.eq_def]
    exact if_pos rfl
  | @stray byte hbyte rest =>
    have hzero : byte ≠ 0 := by
      rintro rfl
      exact absurd hbyte.1 (by decide)
    rw [unitsOnto?.eq_def]
    exact (if_neg hzero).trans ((if_neg (UInt8.not_lt.mpr hbyte.1)).trans (if_pos hbyte.2))
  | @fourBytes lead hlead rest =>
    have hzero : lead ≠ 0 := by
      rintro rfl
      exact absurd hlead (by decide)
    have habove {bound : UInt8} (hbound : bound ≤ 0xf0) : ¬lead < bound :=
      UInt8.not_lt.mpr (UInt8.le_trans hbound hlead)
    rw [unitsOnto?.eq_def]
    exact (if_neg hzero).trans ((if_neg (habove (by decide))).trans
      ((if_neg (habove (by decide))).trans ((if_neg (habove (by decide))).trans
        (if_neg (habove (by decide))))))
  | @missing lead following rest hlead hlead' hfew hfollowing hrest =>
    by_cases htwo : lead < 0xe0
    · rw [if_pos htwo, Nat.lt_one_iff, List.length_eq_zero_iff] at hfew
      rw [hfew, List.nil_append, unitsOnto?_of_two hlead htwo]
      cases rest with
      | nil => rfl
      | cons next rest => simp only [twoByteUnit?_of_not (hrest next rfl)]
    · rw [if_neg htwo] at hfew
      rw [unitsOnto?_of_three (UInt8.not_lt.mp htwo) hlead']
      match following, rest with
      -- The first byte that is no continuation is the next one or the last one.
      | [], [] => rfl
      | [], [next] => rfl
      | [], next :: last :: rest =>
        simp only [List.nil_append, threeByteUnit?_of_not (.inl (hrest next rfl))]
      | [next], [] => rfl
      | [next], last :: rest =>
        simp only [List.singleton_append, threeByteUnit?_of_not (.inr (hrest last rfl))]
      | _ :: _ :: _, _ =>
        simp only [List.length_cons] at hfew
        omega
  | @overlongTwo lead next hlead hnext rest =>
    obtain ⟨hge, hlt⟩ := hnext.toNat_mem
    have hvalue : unitOfTwo lead next = (lead.toNat - 0xc0) * 0x40 + (next.toNat - 0x80) := rfl
    have hunit : ¬(unitOfTwo lead next = 0 ∨ 0x80 ≤ unitOfTwo lead next) := by
      obtain ⟨hfirst, hzero⟩ | hfirst := hlead
      · have hfirst : lead.toNat = 0xc0 := congrArg UInt8.toNat hfirst
        have hzero : next.toNat ≠ 0x80 := fun heq ↦ hzero (UInt8.toNat_inj.mp heq)
        omega
      · have hfirst : lead.toNat = 0xc1 := congrArg UInt8.toNat hfirst
        omega
    have hbounds : 0xc0 ≤ lead ∧ lead < 0xe0 := by
      obtain ⟨rfl, -⟩ | rfl := hlead
      · decide
      · decide
    rw [unitsOnto?_of_two hbounds.1 hbounds.2]
    simp only [twoByteUnit?_of_isContinuation hnext, if_neg hunit]
  | @overlongThree next last hnext hnext' hlast rest =>
    obtain ⟨hge, -⟩ := hnext.toNat_mem
    obtain ⟨hge', hlt'⟩ := hlast.toNat_mem
    have hlt : next.toNat < 0xa0 := UInt8.lt_iff_toNat_lt.mp hnext'
    have hvalue : unitOfThree 0xe0 next last =
      (0xe0 - 0xe0) * 0x1000 + (next.toNat - 0x80) * 0x40 + (last.toNat - 0x80) := rfl
    have hunit : ¬0x800 ≤ unitOfThree 0xe0 next last := by omega
    rw [unitsOnto?_of_three (by decide) (by decide)]
    simp only [threeByteUnit?_of_isContinuation hnext hlast, if_neg hunit]

/-- Bytes are taken apart form by form, up to their end or to what is no form. -/
@[elab_as_elim]
theorem form_induction {motive : List UInt8 → Prop} (bytes : List UInt8) (nil : motive [])
    (form : ∀ unit bytes behind, Form unit bytes → motive behind → motive (bytes ++ behind))
    (unwritten : ∀ bytes, Unwritten bytes → motive bytes) : motive bytes := by
  induction hlength : bytes.length using Nat.strongRecOn generalizing bytes with
  | ind length ih =>
    cases bytes with
    | nil => exact nil
    | cons lead rest =>
      obtain ⟨unit, bytes, behind, hform, heq⟩ | hunwritten := form_or_unwritten lead rest
      · -- A form has bytes, so that what is behind it is shorter.
        have hpositive : 0 < bytes.length := hform.length_pos
        rw [heq, List.length_append] at hlength
        rw [heq]
        exact form unit bytes behind hform (ih behind.length (by omega) behind rfl)
      · exact unwritten _ hunwritten

/-- What was read before stays in front of what is read. -/
theorem unitsOnto?_eq_map (done : List Nat) (bytes : List UInt8) :
    unitsOnto? done bytes = (units? bytes).map (done.reverse ++ ·) := by
  induction bytes using form_induction generalizing done with
  | nil => rw [units?, unitsOnto?, unitsOnto?, Option.map_some, List.reverse_nil, List.append_nil]
  | form unit bytes behind hform ih =>
    rw [units?, hform.unitsOnto?_append, hform.unitsOnto?_append, ih, ih [unit], Option.map_map]
    simp only [Function.comp_def, List.reverse_cons, List.append_assoc, List.reverse_nil,
      List.nil_append]
  | unwritten bytes hbytes =>
    rw [units?, hbytes.unitsOnto?_eq_none, hbytes.unitsOnto?_eq_none, Option.map_none]

theorem Form.units?_append {unit : Nat} {bytes : List UInt8} (hform : Form unit bytes)
    (rest : List UInt8) : units? (bytes ++ rest) = (units? rest).map (unit :: ·) := by
  rw [units?, hform.unitsOnto?_append, unitsOnto?_eq_map]
  rfl

/-- Units are read from how they are written, whatever follows. -/
theorem units?_flatMap_append {units : List Nat} (hunits : ∀ unit ∈ units, unit < 0x10000)
    (rest : List UInt8) :
    units? (units.flatMap encodeUnit ++ rest) = (units? rest).map (units ++ ·) := by
  induction units with
  | nil => exact Option.map_id'.symm
  | cons unit units ih =>
    obtain ⟨hunit, hunits⟩ := List.forall_mem_cons.mp hunits
    rw [List.flatMap_cons, List.append_assoc, (form_encodeUnit hunit).units?_append, ih hunits,
      Option.map_map]
    rfl

/-- A unit that was read first stands first. -/
theorem exists_append_of_units? {bytes : List UInt8} {unit : Nat} {units : List Nat}
    (hunits : units? bytes = some (unit :: units)) : ∃ rest, bytes = encodeUnit unit ++ rest := by
  induction bytes using form_induction with
  | nil => cases hunits
  | form first bytes behind hform =>
    rw [hform.units?_append, Option.map_eq_some_iff] at hunits
    obtain ⟨units, -, hcons⟩ := hunits
    obtain ⟨rfl, -⟩ := List.cons.inj hcons
    exact ⟨behind, by rw [hform.encodeUnit_eq.2]⟩
  | unwritten bytes hbytes =>
    rw [units?, hbytes.unitsOnto?_eq_none] at hunits
    cases hunits

end ClassFormat.Text.ModifiedUtf8
