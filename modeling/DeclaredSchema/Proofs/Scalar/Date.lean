import DeclaredSchema.Proofs.Scalar.Timestamp
import DeclaredSchema.Proofs.Value
import DeclaredSchema.Scalar

/-!
# The date scalar

What the scalar writes is read back as the same instant, to the millisecond. The texts are sorted
like the instants, whatever the offsets are. A text that is accepted is written again with its
digits in ASCII; so of the texts in ASCII exactly the timestamps of moments are accepted, and no two
of them name one moment, but digits of other scripts are accepted too and do not come back.

What is refused is reported as an error of the request, with two exceptions. A date and time cannot
be written when its time in UTC is outside the years that dates can have; and a value with an integer
that is too long cannot be shown in the message that refuses it.

## Main definitions

* `IsTimestamp` — a timestamp in digits of ASCII that names a moment
* `Date.instantOf` — the instant of a date and time that may come without an offset
* `Date.IsAscii` — a text in ASCII
* `Date.LeavesRange` — a date and time that has no time in UTC

## Main results

* `Date.parse_serialize` — what is written is read back
* `Date.serialize_parse` — what is accepted, and what is written for it
* `Date.serialize_sorted` — texts have the order of the instants
* `Date.serialize_ends` — what writing ends with
-/

namespace DeclaredSchema

open Text

/-! ### Canonical timestamps -/

/-- The number that digits of ASCII stand for. -/
def asciiValue (digits : List Char) : Nat := Nat.ofDigitChars 10 digits 0

/-- A timestamp in digits of ASCII, of a day that exists and a time of that day. -/
def IsTimestamp (text : List Char) : Prop :=
  ∃ p : Parts, p.Fits Char.isDigit ∧ text = p.text ∧
    (1 ≤ asciiValue p.year ∧ asciiValue p.year ≤ 9999) ∧
    (1 ≤ asciiValue p.month ∧ asciiValue p.month ≤ 12) ∧
    (1 ≤ asciiValue p.day ∧
      asciiValue p.day ≤ daysInMonth (asciiValue p.year) (asciiValue p.month)) ∧
    asciiValue p.hour ≤ 23 ∧ asciiValue p.minute ≤ 59 ∧ asciiValue p.second ≤ 59

theorem IsRun.digitsValue_eq_asciiValue {width : Nat} {digits : List Char}
    (h : IsRun Char.isDigit width digits) : digitsValue digits = asciiValue digits := by
  rw [digitsValue_eq fun c hc => isDecimal_of_isDigit (h.2 c hc), map_plainDigit h.2, asciiValue]

theorem isTimestamp_iff {text : List Char} :
    IsTimestamp text ↔ ∃ p : Parts, p.Fits Char.isDigit ∧ text = p.text ∧ p.moment.Valid := by
  refine exists_congr fun p => and_congr_right fun h => and_congr_right fun _ => ?_
  have hfraction := h.isDecimal.fraction.digitsValue_lt (by decide)
  simp only [DateTime.Valid, DateTime.maxYear, Parts.moment, h.year.digitsValue_eq_asciiValue,
    h.month.digitsValue_eq_asciiValue, h.day.digitsValue_eq_asciiValue,
    h.hour.digitsValue_eq_asciiValue, h.minute.digitsValue_eq_asciiValue,
    h.second.digitsValue_eq_asciiValue]
  omega

namespace Date

variable {d e utc : DateTime} {offset offset' : Option Int} {text : String}

/-! ### Writing -/

/-- The instant of a date and time; without an offset it is taken to be in UTC. -/
def instantOf (d : DateTime) (offset : Option Int) : Int := d.utcInstant (offset.getD 0)

theorem write_of_valid (h : d.Valid) : write d offset = .ok (String.ofList d.timestamp) :=
  if_pos h.length_timestamp

theorem length_text (h : d.Valid) : (String.ofList d.timestamp).length = 24 := by
  rw [String.length_ofList]
  exact h.length_timestamp

/-- What is written is the timestamp of the time in UTC. -/
theorem serialize_of_instant (hd : d.Valid) (hutc : utc.Valid)
    (h : (utc.instant : Int) = instantOf d offset) :
    serialize (.dateTime d offset) = .ok (String.ofList utc.timestamp) := by
  cases offset with
  | none =>
    have hinstant : utc.instant = d.instant := Int.ofNat_inj.mp (h.trans (Int.sub_zero _))
    obtain rfl := DateTime.eq_of_instant_eq hutc hd hinstant
    exact write_of_valid hutc
  | some offset =>
    have hshown : d.toUtc? offset = some utc := DateTime.toUtc?_eq_some_iff.mpr ⟨hutc, h⟩
    rw [serialize, hshown]
    exact write_of_valid hutc

/-- A date and time is written as its time in UTC, or it has none. -/
theorem serialize_dateTime (hd : d.Valid) (offset : Option Int) :
    (∃ utc : DateTime, utc.Valid ∧ (utc.instant : Int) = instantOf d offset ∧
      serialize (.dateTime d offset) = .ok (String.ofList utc.timestamp)) ∨
    ∃ ahead, offset = some ahead ∧ d.toUtc? ahead = none ∧
      serialize (.dateTime d offset) = .error .dateRange := by
  cases offset with
  | none => exact .inl ⟨d, hd, (Int.sub_zero _).symm, write_of_valid hd⟩
  | some ahead =>
    cases h : d.toUtc? ahead with
    | some utc =>
      obtain ⟨hutc, hinstant⟩ := DateTime.toUtc?_eq_some_iff.mp h
      exact .inl ⟨utc, hutc, hinstant, serialize_of_instant hd hutc hinstant⟩
    | none => exact .inr ⟨ahead, rfl, h, by rw [serialize, h]⟩

/-! ### Reading -/

@[simp]
theorem parse_str (text : String) : parse (.str text) = parseText text := rfl

/-- A text of the form is read part by part. -/
theorem parseText_of_text {p : Parts} (hp : p.Fits isDecimal) (htext : text.toList = p.text) :
    parseText text =
      if p.areReadable && decide p.moment.Valid then .ok p.moment
      else .error (.noSuchMoment text) := by
  have hform : hasTimestampForm text.toList = true := hasTimestampForm_iff.mpr ⟨p, hp, htext⟩
  rw [parseText, hform, htext, Parts.readTimestamp?_text hp]
  cases p.areReadable && decide p.moment.Valid <;> rfl

/-- **A text is accepted** if it has the form, its digits may be read and they name a moment. -/
theorem parseText_eq_ok_iff :
    parseText text = .ok d ↔ ∃ p : Parts, p.Fits isDecimal ∧ text.toList = p.text ∧
      p.areReadable = true ∧ p.moment.Valid ∧ d = p.moment := by
  constructor
  · intro h
    cases hform : hasTimestampForm text.toList with
    | false =>
      rw [parseText, hform] at h
      cases h
    | true =>
      obtain ⟨p, hp, htext⟩ := hasTimestampForm_iff.mp hform
      rw [parseText_of_text hp htext] at h
      split at h
      case isTrue hread =>
        obtain ⟨hreadable, hvalid⟩ := (Bool.and_eq_true ..).mp hread
        exact ⟨p, hp, htext, hreadable, of_decide_eq_true hvalid, (Except.ok.inj h).symm⟩
      case isFalse => cases h
  · rintro ⟨p, hp, htext, hreadable, hvalid, rfl⟩
    rw [parseText_of_text hp htext, hreadable, decide_eq_true hvalid]
    rfl

/-- A text is accepted, or its refusal is reported. -/
theorem parseText_ends (text : String) : (∃ d, parseText text = .ok d) ∨
    ∃ fault, parseText text = .error fault ∧ fault.isReported = true := by
  rw [parseText]
  split
  · exact .inr ⟨_, rfl, rfl⟩
  · split
    · exact .inl ⟨_, rfl⟩
    · exact .inr ⟨_, rfl, rfl⟩

/-- The characters of a text are those of ASCII. -/
def IsAscii (text : String) : Prop := ∀ c ∈ text.toList, c.toNat < 128

instance (text : String) : Decidable (IsAscii text) :=
  List.decidableBAll (fun c : Char => c.toNat < 128) text.toList

/-- In ASCII a digit of any script is a digit of ASCII. -/
theorem IsAscii.fits {p : Parts} (h : IsAscii text) (htext : text.toList = p.text)
    (hp : p.Fits isDecimal) : p.Fits Char.isDigit :=
  hp.mono fun c hc hdecimal => isDigit_of_isDecimal_of_lt hdecimal (h c (htext ▸ hc))

/-- **What is accepted in ASCII** are the timestamps of moments. -/
theorem IsAscii.accepted_iff (h : IsAscii text) :
    (∃ d, parseText text = .ok d) ↔ IsTimestamp text.toList := by
  simp only [parseText_eq_ok_iff, isTimestamp_iff]
  constructor
  · rintro ⟨d, p, hp, htext, -, hvalid, -⟩
    exact ⟨p, h.fits htext hp, htext, hvalid⟩
  · rintro ⟨p, hp, htext, hvalid⟩
    have hparts : p.moment.parts = p :=
      (Parts.parts_moment hp.isDecimal).trans (Parts.plain_of_fits hp)
    have hreadable := hvalid.areReadable_parts
    rw [hparts] at hreadable
    exact ⟨p.moment, p, hp.isDecimal, htext, hreadable, hvalid, rfl⟩

/-- What is accepted is written again with its digits in ASCII. -/
theorem serialize_of_parseText (h : parseText text = .ok d) :
    serialize (.dateTime d (some 0)) = .ok (String.ofList (text.toList.map plainDigit)) := by
  obtain ⟨p, hp, htext, -, hvalid, rfl⟩ := parseText_eq_ok_iff.mp h
  have hwritten : p.moment.timestamp = text.toList.map plainDigit := by
    rw [htext, ← Parts.plain_text, ← Parts.parts_moment hp]
    rfl
  rw [serialize_of_instant hvalid hvalid (Int.sub_zero _).symm, hwritten]

/-- What is accepted is written again as it was exactly if it is in ASCII. -/
theorem isAscii_iff_serialize (h : parseText text = .ok d) :
    serialize (.dateTime d (some 0)) = .ok text ↔ IsAscii text := by
  obtain ⟨p, hp, htext, -, -, -⟩ := parseText_eq_ok_iff.mp h
  rw [serialize_of_parseText h, Except.ok.injEq, ← String.toList_inj, String.toList_ofList, htext,
    ← Parts.plain_text]
  constructor
  · intro hsame c hc
    rw [htext, ← hsame] at hc
    exact Parts.isAscii_text hp.plain c hc
  · exact fun hascii => congrArg Parts.text (Parts.plain_of_fits (hascii.fits htext hp))

/-- A value is read if it is a text that is accepted. Otherwise its refusal is reported, unless it
cannot be shown. -/
theorem parse_ends (v : Value) : (∃ text d, v = .str text ∧ parse v = .ok d) ∨
    ∃ fault, parse v = .error fault ∧ (fault.isReported = true ↔ ¬v.HoldsLongInteger) := by
  have hother (h : parse v = v.refuse .notTimestamp) :
      ∃ fault, parse v = .error fault ∧ (fault.isReported = true ↔ ¬v.HoldsLongInteger) := by
    rw [h]
    exact Value.exists_isReported_iff_of_refuse fun _ => rfl
  cases v with
  | str text =>
    obtain ⟨d, h⟩ | ⟨fault, h, hreported⟩ := parseText_ends text
    · exact .inl ⟨text, d, rfl, h⟩
    · exact .inr ⟨fault, h, iff_of_true hreported (Value.not_holdsLongInteger_str text)⟩
  | _ => exact .inr (hother rfl)

/-- **What is accepted.** What is read is written again with its digits in ASCII, so a text in ASCII
comes back and is the only one of its moment; and of the texts in ASCII exactly the timestamps of
moments are read. In a query what is not read is refused with a fault that is reported. So it is
outside of one, but a value with an integer that is too long cannot be shown, and the fault of that
is not reported. -/
theorem serialize_parse (text : String) :
    (∀ d, parse (.str text) = .ok d → d.Valid ∧
      serialize (.dateTime d (some 0)) = .ok (String.ofList (text.toList.map plainDigit)) ∧
      (serialize (.dateTime d (some 0)) = .ok text ↔ IsAscii text)) ∧
    (IsAscii text →
      ((∃ d, parse (.str text) = .ok d) ↔ IsTimestamp text.toList) ∧
      ∀ text' d, IsAscii text' → parse (.str text) = .ok d → parse (.str text') = .ok d →
        text = text') ∧
    (∀ block, parseNode (.string text block) = parse (.str text)) ∧
    (∀ v : Value, (∃ text d, v = .str text ∧ parse v = .ok d) ∨
      ∃ fault, parse v = .error fault ∧ (fault.isReported = true ↔ ¬v.HoldsLongInteger)) ∧
    (∀ node, (∃ text block d, node = .string text block ∧ parseNode node = .ok d) ∨
      ∃ fault, parseNode node = .error fault ∧ fault.isReported = true) := by
  refine ⟨fun d h => ?_, fun htext => ⟨htext.accepted_iff, fun text' d htext' h h' => ?_⟩,
    fun _ => rfl, parse_ends, fun node => ?_⟩
  · obtain ⟨p, -, -, -, hvalid, rfl⟩ := parseText_eq_ok_iff.mp h
    exact ⟨hvalid, serialize_of_parseText h, isAscii_iff_serialize h⟩
  · exact Except.ok.inj (((isAscii_iff_serialize h).mpr htext).symm.trans
      ((isAscii_iff_serialize h').mpr htext'))
  · cases node with
    | string text block =>
      exact (parseText_ends text).imp_left fun ⟨d, h⟩ => ⟨text, block, d, rfl, h⟩
    | _ => exact .inr ⟨_, rfl, rfl⟩

theorem serialize_parse_leapDay :
    parse (.str "2020-02-29T00:00:00.500Z") = .ok ⟨2020, 2, 29, 0, 0, 0, 500000⟩ ∧
      serialize (.dateTime ⟨2020, 2, 29, 0, 0, 0, 500000⟩ (some 0)) =
        .ok "2020-02-29T00:00:00.500Z" ∧
      IsTimestamp "2020-02-29T00:00:00.500Z".toList :=
  have hascii : IsAscii "2020-02-29T00:00:00.500Z" := by decide +kernel
  have hparse : parse (.str "2020-02-29T00:00:00.500Z") = .ok ⟨2020, 2, 29, 0, 0, 0, 500000⟩ := by
    rfl
  have ⟨hback, haccepted, _⟩ := serialize_parse "2020-02-29T00:00:00.500Z"
  ⟨hparse, (hback _ hparse).2.2.mpr hascii, (haccepted hascii).1.mp ⟨_, hparse⟩⟩

/-- A digit of another script is accepted, and the text does not come back. -/
theorem not_serialize_parse_arabicDigit :
    parse (.str "2024-01-1٢T00:00:00.070Z") = .ok ⟨2024, 1, 12, 0, 0, 0, 70000⟩ ∧
      parse (.str "2024-01-12T00:00:00.070Z") = .ok ⟨2024, 1, 12, 0, 0, 0, 70000⟩ ∧
      serialize (.dateTime ⟨2024, 1, 12, 0, 0, 0, 70000⟩ (some 0)) =
        .ok "2024-01-12T00:00:00.070Z" ∧
      "2024-01-12T00:00:00.070Z" ≠ "2024-01-1٢T00:00:00.070Z" :=
  ⟨by rfl, by rfl, by rfl, by decide⟩

/-! ### From a date and time to its text and back -/

/-- A timestamp is read as the moment that it was written for, to the millisecond. -/
theorem parseText_timestamp (h : utc.Valid) :
    parseText (String.ofList utc.timestamp) = .ok utc.floored := by
  have hmoment := DateTime.moment_parts utc
  exact parseText_eq_ok_iff.mpr ⟨utc.parts, h.fits_parts.isDecimal, String.toList_ofList,
    h.areReadable_parts, hmoment ▸ h.floored, hmoment.symm⟩

/-- **What is written is read back.** If a date and time has a time in UTC, it is written as 24
characters, and these are read as that time without what is below a millisecond. -/
theorem parse_serialize (hd : d.Valid) (hutc : utc.Valid)
    (h : (utc.instant : Int) = instantOf d offset) :
    ∃ text, serialize (.dateTime d offset) = .ok text ∧ text.length = 24 ∧
      parse (.str text) = .ok utc.floored ∧
      (utc.floored.instant : Int) = instantOf d offset / 1000 * 1000 ∧
      ScalarKind.date.parse name (.str text) = .ok (.dateTime utc.floored (some 0)) := by
  have hread : parse (.str (String.ofList utc.timestamp)) = .ok utc.floored := by
    rw [parse_str, parseText_timestamp hutc]
  refine ⟨String.ofList utc.timestamp, serialize_of_instant hd hutc h, length_text hutc, hread,
    ?_, ?_⟩
  · rw [DateTime.instant_floored, ← h]
    rfl
  · rw [ScalarKind.parse, hread]
    rfl

theorem parse_serialize_leapDay :
    ∃ text, serialize (.dateTime ⟨2000, 3, 1, 0, 15, 30, 1999⟩ (some 1800000000)) = .ok text ∧
      text.length = 24 ∧ parse (.str text) = .ok ⟨2000, 2, 29, 23, 45, 30, 1000⟩ :=
  have hd : DateTime.Valid ⟨2000, 3, 1, 0, 15, 30, 1999⟩ := by decide
  have hutc : DateTime.Valid ⟨2000, 2, 29, 23, 45, 30, 1999⟩ := by decide
  have hinstant : ((⟨2000, 2, 29, 23, 45, 30, 1999⟩ : DateTime).instant : Int) =
      instantOf ⟨2000, 3, 1, 0, 15, 30, 1999⟩ (some 1800000000) := by decide +kernel
  have ⟨text, htext, hlength, hread, _⟩ := parse_serialize hd hutc hinstant
  ⟨text, htext, hlength, hread⟩

/-! ### The order of texts -/

/-- Texts are in order if the instants are to the millisecond. -/
theorem text_le_iff (hd : d.Valid) (he : e.Valid) :
    String.ofList d.timestamp ≤ String.ofList e.timestamp ↔
      d.instant / 1000 ≤ e.instant / 1000 := by
  rw [← not_lt, String.lt_iff_toList_lt, String.toList_ofList, String.toList_ofList,
    DateTime.timestamp_lt_iff he hd, DateTime.precedes_iff he hd, not_lt]

/-- Two dates and times of one instant are written alike, or both have no time in UTC. -/
theorem serialize_congr (hd : d.Valid) (he : e.Valid)
    (h : instantOf d offset = instantOf e offset') :
    serialize (.dateTime d offset) = serialize (.dateTime e offset') := by
  obtain ⟨utc, hutc, hinstant, hd'⟩ | ⟨ahead, rfl, hnone, hd'⟩ := serialize_dateTime hd offset
  · rw [hd', serialize_of_instant he hutc (hinstant.trans h)]
  · obtain ⟨utc, hutc, hinstant, -⟩ | ⟨-, -, -, he'⟩ := serialize_dateTime he offset'
    · have hsome := DateTime.toUtc?_eq_some_iff.mpr ⟨hutc, hinstant.trans h.symm⟩
      rw [Option.getD_some, hnone] at hsome
      cases hsome
    · rw [hd', he']

/-- **The order of texts** is that of the instants: an earlier instant has no greater text, and two
texts are in order exactly if the instants are to the millisecond, whatever the offsets are. One
instant has one text. -/
theorem serialize_sorted (hd : d.Valid) (he : e.Valid) :
    (∀ text text', serialize (.dateTime d offset) = .ok text →
      serialize (.dateTime e offset') = .ok text' →
        (instantOf d offset ≤ instantOf e offset' → text ≤ text') ∧
        (text ≤ text' ↔ instantOf d offset / 1000 ≤ instantOf e offset' / 1000)) ∧
    (instantOf d offset = instantOf e offset' →
      serialize (.dateTime d offset) = serialize (.dateTime e offset')) := by
  refine ⟨fun text text' htext htext' => ?_, serialize_congr hd he⟩
  obtain ⟨utc, hutc, hinstant, hd'⟩ | ⟨-, -, -, hd'⟩ := serialize_dateTime hd offset
  case inr => rw [hd'] at htext; cases htext
  obtain ⟨utc', hutc', hinstant', he'⟩ | ⟨-, -, -, he'⟩ := serialize_dateTime he offset'
  case inr => rw [he'] at htext'; cases htext'
  obtain rfl := Except.ok.inj (hd'.symm.trans htext)
  obtain rfl := Except.ok.inj (he'.symm.trans htext')
  rw [text_le_iff hutc hutc', ← hinstant, ← hinstant']
  omega

theorem serialize_sorted_acrossNewYear :
    ∃ text text', serialize (.dateTime ⟨2024, 1, 1, 0, 30, 0, 0⟩ (some 3600000000)) = .ok text ∧
      serialize (.dateTime ⟨2023, 12, 31, 20, 45, 0, 0⟩ (some (-10800000000))) = .ok text' ∧
      text ≤ text' :=
  have hd : DateTime.Valid ⟨2024, 1, 1, 0, 30, 0, 0⟩ := by decide
  have he : DateTime.Valid ⟨2023, 12, 31, 20, 45, 0, 0⟩ := by decide
  have htext : serialize (.dateTime ⟨2024, 1, 1, 0, 30, 0, 0⟩ (some 3600000000)) =
      .ok "2023-12-31T23:30:00.000Z" := by rfl
  have htext' : serialize (.dateTime ⟨2023, 12, 31, 20, 45, 0, 0⟩ (some (-10800000000))) =
      .ok "2023-12-31T23:45:00.000Z" := by rfl
  ⟨_, _, htext, htext', ((serialize_sorted hd he).1 _ _ htext htext').1 (by decide +kernel)⟩

/-! ### What writing ends with -/

/-- A date and time names a moment, by a clock that is less than a day ahead of UTC or behind it. -/
def IsProper (v : Value) : Prop :=
  ∀ d offset, v = .dateTime d offset → d.Valid ∧ ∀ ahead ∈ offset, ahead.natAbs < DateTime.perDay

/-- A date and time whose time in UTC is outside the years that dates can have. -/
def LeavesRange (v : Value) : Prop :=
  ∃ d ahead, v = .dateTime d (some ahead) ∧
    (d.utcInstant ahead < 0 ∨ DateTime.instantLimit ≤ d.utcInstant ahead)

/-- What is no date and time is refused. -/
theorem serialize_of_ne {v : Value} (h : ∀ d offset, v ≠ .dateTime d offset) :
    serialize v = v.refuse .notDateTime := by
  cases v with
  | dateTime d offset => exact absurd rfl (h d offset)
  | _ => rfl

/-- **Writing ends** with a text of 24 characters for a date and time, and with an error of the
request that shows the value for any other value. There are two exceptions, whose faults are not
reported. One is a date and time whose time in UTC is outside the years that dates can have, which
only the first and the last day can be; the other is a value with an integer that is too long to be
shown. -/
theorem serialize_ends {v : Value} (hv : IsProper v) :
    (¬LeavesRange v → ¬v.HoldsLongInteger →
      (∃ d offset text, v = .dateTime d offset ∧ serialize v = .ok text ∧ text.length = 24) ∨
      ((∀ d offset, v ≠ .dateTime d offset) ∧ ∃ shown, v.display = some shown ∧
        serialize v = .error (.notDateTime shown) ∧
        (ValueFault.notDateTime shown).isReported = true)) ∧
    (LeavesRange v →
      serialize v = .error .dateRange ∧ ValueFault.dateRange.isReported = false ∧
      ∃ d ahead, v = .dateTime d (some ahead) ∧
        (d.year = 1 ∧ d.month = 1 ∧ d.day = 1 ∧ 0 < ahead ∨
          d.year = DateTime.maxYear ∧ d.month = 12 ∧ d.day = 31 ∧ ahead < 0)) ∧
    (v.HoldsLongInteger →
      serialize v = .error .longInteger ∧ ValueFault.longInteger.isReported = false) := by
  refine ⟨fun hrange hshort => ?_, ?_, fun hlong => ⟨?_, rfl⟩⟩
  · have hother (hne : ∀ d offset, v ≠ .dateTime d offset) : ∃ shown, v.display = some shown ∧
        serialize v = .error (.notDateTime shown) ∧
        (ValueFault.notDateTime shown).isReported = true := by
      obtain ⟨shown, hshown, hrefuse⟩ := Value.refuse_of_not_holdsLongInteger hshort
      exact ⟨shown, hshown, (serialize_of_ne hne).trans hrefuse, rfl⟩
    cases v with
    | dateTime d offset =>
      have hd : d.Valid := (hv d offset rfl).1
      obtain ⟨utc, hutc, -, h⟩ | ⟨ahead, rfl, hnone, -⟩ := serialize_dateTime hd offset
      · exact .inl ⟨d, offset, _, rfl, h, length_text hutc⟩
      · exact absurd ⟨d, ahead, rfl, DateTime.toUtc?_eq_none_iff.mp hnone⟩ hrange
    | _ => exact .inr ⟨nofun, hother nofun⟩
  · rintro ⟨d, ahead, rfl, houtside⟩
    obtain ⟨hd, hahead⟩ := hv d _ rfl
    have hnone := DateTime.toUtc?_eq_none_iff.mpr houtside
    exact ⟨by rw [serialize, hnone], rfl, d, ahead, rfl,
      DateTime.isEdge_of_toUtc?_eq_none hd (hahead ahead rfl) hnone⟩
  · have hne (d : DateTime) (offset : Option Int) : v ≠ .dateTime d offset := by
      rintro rfl
      cases hlong
    exact (serialize_of_ne hne).trans (Value.refuse_of_holdsLongInteger hlong)

theorem serialize_ends_lastSecond :
    serialize (.dateTime ⟨9999, 12, 31, 23, 59, 59, 999999⟩ (some (-1))) = .error .dateRange ∧
      (∃ text, serialize (.dateTime ⟨9999, 12, 31, 23, 59, 59, 999999⟩ (some 0)) = .ok text ∧
        text.length = 24) ∧
      serialize (.list [.int (10 ^ digitLimit : Nat)]) = .error .longInteger := by
  have hproper (ahead : Int) (h : ahead.natAbs < DateTime.perDay) :
      IsProper (.dateTime ⟨9999, 12, 31, 23, 59, 59, 999999⟩ (some ahead)) := by
    rintro d offset ⟨⟩
    exact ⟨by decide, fun _ hahead => Option.some.inj hahead ▸ h⟩
  refine ⟨?_, ?_, ?_⟩
  · exact ((serialize_ends (hproper (-1) (by decide))).2.1
      ⟨_, _, rfl, .inr (by decide +kernel)⟩).1
  · have hrange : ¬LeavesRange (.dateTime ⟨9999, 12, 31, 23, 59, 59, 999999⟩ (some 0)) := by
      rintro ⟨d, ahead, ⟨⟩, houtside⟩
      exact absurd houtside (by decide +kernel)
    obtain ⟨-, -, text, -, htext, hlength⟩ | ⟨hother, -⟩ :=
      (serialize_ends (hproper 0 (by decide))).1 hrange nofun
    · exact ⟨text, htext, hlength⟩
    · exact absurd rfl (hother _ _)
  · have hproper : IsProper (.list [.int (10 ^ digitLimit : Nat)]) := nofun
    have hlong : Value.HoldsLongInteger (.list [.int (10 ^ digitLimit : Nat)]) :=
      .item (.head _) (.int (Int.natAbs_natCast _).ge)
    exact ((serialize_ends hproper).2.2 hlong).1

/-- Midnight on the first day, by a clock an hour ahead of UTC, ends with a fault that escapes. -/
theorem not_isReported_serialize_firstHour :
    serialize (.dateTime ⟨1, 1, 1, 0, 0, 0, 0⟩ (some 3600000000)) = .error .dateRange ∧
      ValueFault.dateRange.isReported = false :=
  ⟨by rfl, rfl⟩

end Date

end DeclaredSchema
