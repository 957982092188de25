import Mathlib.Data.List.Basic
import RubyIndex.Text.Utf8

/-! Reading UTF-8, against the encoding of a character by the library. What is read of a text is
the characters whose encodings make it up, and a text is refused exactly when there are none. -/
namespace RubyIndex.Text.Utf8

variable {p : Pending} {b : UInt8} {bytes tail : List UInt8} {done text : List Char} {c : Char}
  {start pos n : Nat}

theorem toNat_ofNat_of_isValidChar (valid : n.isValidChar) : (Char.ofNat n).toNat = n := by
  rw [Char.ofNat, dif_pos valid]
  rfl

theorem encode_one (small : c.toNat < 0x80) :
    String.utf8EncodeChar c = [UInt8.ofNat c.toNat] :=
  if_pos (Nat.le_of_lt_succ small)

theorem encode_two (low : 0x80 ≤ c.toNat) (high : c.toNat < 0x800) :
    String.utf8EncodeChar c =
      [UInt8.ofNat (c.toNat / 64 % 0x20 + 0xC0), UInt8.ofNat (c.toNat % 0x40 + 0x80)] := by
  change ite (c.toNat ≤ 0x7F) _ (ite (c.toNat ≤ 0x7FF) _ _) = _
  rw [if_neg (by omega), if_pos (by omega)]
  rfl

theorem encode_three (low : 0x800 ≤ c.toNat) (high : c.toNat < 0x10000) :
    String.utf8EncodeChar c =
      [UInt8.ofNat (c.toNat / 4096 % 0x10 + 0xE0), UInt8.ofNat (c.toNat / 64 % 0x40 + 0x80),
        UInt8.ofNat (c.toNat % 0x40 + 0x80)] := by
  change ite (c.toNat ≤ 0x7F) _ (ite (c.toNat ≤ 0x7FF) _ (ite (c.toNat ≤ 0xFFFF) _ _)) = _
  rw [if_neg (by omega), if_neg (by omega), if_pos (by omega)]
  rfl

theorem encode_four (low : 0x10000 ≤ c.toNat) :
    String.utf8EncodeChar c =
      [UInt8.ofNat (c.toNat / 262144 % 0x08 + 0xF0), UInt8.ofNat (c.toNat / 4096 % 0x40 + 0x80),
        UInt8.ofNat (c.toNat / 64 % 0x40 + 0x80), UInt8.ofNat (c.toNat % 0x40 + 0x80)] := by
  change ite (c.toNat ≤ 0x7F) _ (ite (c.toNat ≤ 0x7FF) _ (ite (c.toNat ≤ 0xFFFF) _ _)) = _
  rw [if_neg (by omega), if_neg (by omega), if_neg (by omega)]
  rfl

theorem ofNat_eq (same : n = b.toNat) : UInt8.ofNat n = b := by
  rw [same, UInt8.ofNat_toNat]

def Pending.next (p : Pending) (b : UInt8) : Pending :=
  { p with bits := 64 * p.bits + (b.toNat - 0x80), owed := p.owed - 1, low := 0x80, high := 0xBF }

/-- The bytes complete a character that has begun, and this is its code point. -/
inductive Completes : Pending → List UInt8 → Nat → Prop where
  | last {p : Pending} {b : UInt8} : p.owed ≤ 1 → p.low ≤ b → b ≤ p.high →
      Completes p [b] (p.next b).bits
  | more {p : Pending} {b : UInt8} {tail : List UInt8} {n : Nat} : ¬ p.owed ≤ 1 → p.low ≤ b →
      b ≤ p.high → Completes (p.next b) tail n → Completes p (b :: tail) n

theorem decodeFrom_some_cons (fits : p.low ≤ b ∧ b ≤ p.high) :
    decodeFrom (some p) pos done (b :: bytes) =
      if p.owed ≤ 1 then decodeFrom none (pos + 1) (Char.ofNat (p.next b).bits :: done) bytes
      else decodeFrom (some (p.next b)) (pos + 1) done bytes := by
  rw [decodeFrom]
  simp only [Bool.and_eq_true, decide_eq_true_eq]
  rw [if_pos fits]
  rfl

theorem decodeFrom_some_iff : decodeFrom (some p) pos done bytes = .ok text ↔
    ∃ tail rest n, bytes = tail ++ rest ∧ Completes p tail n ∧
      decodeFrom none (pos + tail.length) (Char.ofNat n :: done) rest = .ok text := by
  constructor
  · intro read
    induction bytes generalizing p pos with
    | nil => cases read
    | cons b bytes ih =>
      by_cases fits : p.low ≤ b ∧ b ≤ p.high
      · rw [decodeFrom_some_cons fits] at read
        split at read
        · next one => exact ⟨[b], bytes, _, rfl, .last one fits.1 fits.2, read⟩
        · next several =>
          obtain ⟨tail, rest, n, rfl, completes, read⟩ := ih read
          refine ⟨b :: tail, rest, n, rfl, .more several fits.1 fits.2 completes, ?_⟩
          rw [List.length_cons, Nat.add_comm tail.length, ← Nat.add_assoc]
          exact read
      · rw [decodeFrom] at read
        simp only [Bool.and_eq_true, decide_eq_true_eq] at read
        rw [if_neg fits] at read
        cases read
  · rintro ⟨tail, rest, n, rfl, completes, read⟩
    induction completes generalizing pos with
    | last one low high =>
      rw [List.singleton_append, decodeFrom_some_cons ⟨low, high⟩, if_pos one]
      exact read
    | @more p b tail n several low high _ ih =>
      rw [List.cons_append, decodeFrom_some_cons ⟨low, high⟩, if_neg several]
      apply ih
      rw [List.length_cons, Nat.add_comm tail.length, ← Nat.add_assoc] at read
      exact read

theorem completes_last_iff (one : p.owed ≤ 1) : Completes p tail n ↔
    ∃ x : UInt8, tail = [x] ∧ p.low.toNat ≤ x.toNat ∧ x.toNat ≤ p.high.toNat ∧
      n = (p.next x).bits := by
  constructor
  · intro completes
    cases completes with
    | @last _ x _ low high => exact ⟨x, rfl, low, high, rfl⟩
    | more several => exact absurd one several
  · rintro ⟨x, rfl, low, high, value⟩
    rw [value]
    exact .last one low high

theorem completes_more_iff (several : ¬ p.owed ≤ 1) : Completes p tail n ↔
    ∃ (x : UInt8) (rest : List UInt8), tail = x :: rest ∧ p.low.toNat ≤ x.toNat ∧
      x.toNat ≤ p.high.toNat ∧ Completes (p.next x) rest n := by
  constructor
  · intro completes
    cases completes with
    | last one => exact absurd one several
    | @more _ x rest _ _ low high completes => exact ⟨x, rest, rfl, low, high, completes⟩
  · rintro ⟨x, rest, rfl, low, high, completes⟩
    exact .more several low high completes

theorem open?_eq_some_iff : Pending.open? start b = some p ↔
    0xC2 ≤ b.toNat ∧ b.toNat < 0xE0 ∧ p = ⟨start, b, b.toNat - 0xC0, 1, 0x80, 0xBF⟩ ∨
    0xE0 ≤ b.toNat ∧ b.toNat < 0xF0 ∧
      p = ⟨start, b, b.toNat - 0xE0, 2, if b.toNat = 0xE0 then 0xA0 else 0x80,
        if b.toNat = 0xED then 0x9F else 0xBF⟩ ∨
    0xF0 ≤ b.toNat ∧ b.toNat < 0xF5 ∧
      p = ⟨start, b, b.toNat - 0xF0, 3, if b.toNat = 0xF0 then 0x90 else 0x80,
        if b.toNat = 0xF4 then 0x8F else 0xBF⟩ := by
  unfold Pending.open?
  simp only [UInt8.lt_iff_toNat_lt, ← UInt8.toNat_inj, UInt8.toNat_ofNat, Nat.reducePow,
    Nat.reduceMod]
  constructor
  · intro opened
    split at opened
    · cases opened
    · split at opened
      · cases opened
        exact .inl ⟨by omega, by omega, rfl⟩
      · split at opened
        · cases opened
          exact .inr (.inl ⟨by omega, by omega, rfl⟩)
        · split at opened
          · cases opened
            exact .inr (.inr ⟨by omega, by omega, rfl⟩)
          · cases opened
  · rintro (⟨low, high, rfl⟩ | ⟨low, high, rfl⟩ | ⟨low, high, rfl⟩)
    · rw [if_neg (by omega), if_pos high]
    · rw [if_neg (by omega), if_neg (by omega), if_pos high]
    · rw [if_neg (by omega), if_neg (by omega), if_neg (by omega), if_pos high]

/-! The bytes that are read as one character are its encoding, by the number of the bytes. -/

theorem encode_of_completes_two (low : 0xC2 ≤ b.toNat) (high : b.toNat < 0xE0)
    (read : Completes ⟨start, b, b.toNat - 0xC0, 1, 0x80, 0xBF⟩ tail n) :
    String.utf8EncodeChar (Char.ofNat n) = b :: tail := by
  rw [completes_last_iff (Nat.le_refl 1)] at read
  obtain ⟨x, rfl, xlow, xhigh, value⟩ := read
  dsimp only [Pending.next] at xlow xhigh value
  simp only [UInt8.toNat_ofNat, Nat.reducePow, Nat.reduceMod] at xlow xhigh
  have point := toNat_ofNat_of_isValidChar (n := n) (.inl (by omega))
  rw [encode_two (by omega) (by omega), point, ofNat_eq (b := b) (by omega),
    ofNat_eq (b := x) (by omega)]

theorem encode_of_completes_three (low : 0xE0 ≤ b.toNat) (high : b.toNat < 0xF0)
    (read : Completes ⟨start, b, b.toNat - 0xE0, 2, if b.toNat = 0xE0 then 0xA0 else 0x80,
      if b.toNat = 0xED then 0x9F else 0xBF⟩ tail n) :
    String.utf8EncodeChar (Char.ofNat n) = b :: tail := by
  rw [completes_more_iff (by simp)] at read
  obtain ⟨x, _, rfl, xlow, xhigh, read⟩ := read
  rw [completes_last_iff (by exact Nat.le_refl 1)] at read
  obtain ⟨y, rfl, ylow, yhigh, value⟩ := read
  dsimp only [Pending.next] at xlow xhigh ylow yhigh value
  simp only [apply_ite UInt8.toNat, UInt8.toNat_ofNat, Nat.reducePow,
    Nat.reduceMod] at xlow xhigh ylow yhigh
  -- The range of the second byte keeps out overlong forms and surrogates.
  have bounds : 0x80 ≤ x.toNat ∧ x.toNat ≤ 0xBF ∧ 0x800 ≤ n ∧ n < 0x10000 ∧ n.isValidChar := by
    unfold Nat.isValidChar
    split at xlow <;> split at xhigh <;> omega
  obtain ⟨xlow, xhigh, nlow, nhigh, valid⟩ := bounds
  have point := toNat_ofNat_of_isValidChar valid
  rw [encode_three (by omega) (by omega), point, ofNat_eq (b := b) (by omega),
    ofNat_eq (b := x) (by omega), ofNat_eq (b := y) (by omega)]

theorem encode_of_completes_four (low : 0xF0 ≤ b.toNat) (high : b.toNat < 0xF5)
    (read : Completes ⟨start, b, b.toNat - 0xF0, 3, if b.toNat = 0xF0 then 0x90 else 0x80,
      if b.toNat = 0xF4 then 0x8F else 0xBF⟩ tail n) :
    String.utf8EncodeChar (Char.ofNat n) = b :: tail := by
  rw [completes_more_iff (by simp)] at read
  obtain ⟨x, _, rfl, xlow, xhigh, read⟩ := read
  rw [completes_more_iff (by simp [Pending.next])] at read
  obtain ⟨y, _, rfl, ylow, yhigh, read⟩ := read
  rw [completes_last_iff (by exact Nat.le_refl 1)] at read
  obtain ⟨z, rfl, zlow, zhigh, value⟩ := read
  dsimp only [Pending.next] at xlow xhigh ylow yhigh zlow zhigh value
  simp only [apply_ite UInt8.toNat, UInt8.toNat_ofNat, Nat.reducePow,
    Nat.reduceMod] at xlow xhigh ylow yhigh zlow zhigh
  -- The range of the second byte keeps out overlong forms and what is beyond the last character.
  have bounds : 0x80 ≤ x.toNat ∧ x.toNat ≤ 0xBF ∧ 0x10000 ≤ n ∧ n < 0x110000 := by
    split at xlow <;> split at xhigh <;> omega
  obtain ⟨xlow, xhigh, nlow, nhigh⟩ := bounds
  have point := toNat_ofNat_of_isValidChar (n := n) (.inr (by omega))
  rw [encode_four (by omega), point, ofNat_eq (b := b) (by omega), ofNat_eq (b := x) (by omega),
    ofNat_eq (b := y) (by omega), ofNat_eq (b := z) (by omega)]

theorem encode_of_completes (opened : Pending.open? start b = some p) (read : Completes p tail n) :
    0x80 ≤ b.toNat ∧ String.utf8EncodeChar (Char.ofNat n) = b :: tail := by
  rcases open?_eq_some_iff.mp opened with ⟨low, high, rfl⟩ | ⟨low, high, rfl⟩ | ⟨low, high, rfl⟩
  · exact ⟨by omega, encode_of_completes_two low high read⟩
  · exact ⟨by omega, encode_of_completes_three low high read⟩
  · exact ⟨by omega, encode_of_completes_four low high read⟩

/-! The encoding of a character of several bytes is read as that character. -/

theorem toNat_ofNat_of_lt (small : n < 0x100) : (UInt8.ofNat n).toNat = n :=
  UInt8.toNat_ofNat'.trans (Nat.mod_eq_of_lt small)

theorem completes_of_encode_two (low : 0x80 ≤ c.toNat) (high : c.toNat < 0x800)
    (encoded : String.utf8EncodeChar c = b :: tail) :
    ∃ p, Pending.open? start b = some p ∧ Completes p tail c.toNat := by
  rw [encode_two low high] at encoded
  obtain ⟨rfl, rfl⟩ := List.cons.inj encoded
  have first : (UInt8.ofNat (c.toNat / 64 % 0x20 + 0xC0)).toNat = c.toNat / 64 + 0xC0 := by
    rw [toNat_ofNat_of_lt (by omega)]
    omega
  have second := toNat_ofNat_of_lt (n := c.toNat % 0x40 + 0x80) (by omega)
  refine ⟨_, open?_eq_some_iff.mpr (.inl ⟨by omega, by omega, rfl⟩), ?_⟩
  rw [completes_last_iff (Nat.le_refl 1)]
  refine ⟨_, rfl, ?_⟩
  dsimp only [Pending.next]
  simp only [first, second, UInt8.toNat_ofNat, Nat.reducePow, Nat.reduceMod]
  omega

theorem completes_of_encode_three (low : 0x800 ≤ c.toNat) (high : c.toNat < 0x10000)
    (encoded : String.utf8EncodeChar c = b :: tail) :
    ∃ p, Pending.open? start b = some p ∧ Completes p tail c.toNat := by
  have valid : c.toNat < 0xD800 ∨ 0xDFFF < c.toNat ∧ c.toNat < 0x110000 := c.valid
  rw [encode_three low high] at encoded
  obtain ⟨rfl, rfl⟩ := List.cons.inj encoded
  have first : (UInt8.ofNat (c.toNat / 4096 % 0x10 + 0xE0)).toNat = c.toNat / 4096 + 0xE0 := by
    rw [toNat_ofNat_of_lt (by omega)]
    omega
  have second := toNat_ofNat_of_lt (n := c.toNat / 64 % 0x40 + 0x80) (by omega)
  have third := toNat_ofNat_of_lt (n := c.toNat % 0x40 + 0x80) (by omega)
  refine ⟨_, open?_eq_some_iff.mpr (.inr (.inl ⟨by omega, by omega, rfl⟩)), ?_⟩
  rw [completes_more_iff (by simp)]
  refine ⟨_, _, rfl, ?_⟩
  rw [completes_last_iff (by exact Nat.le_refl 1)]
  dsimp only [Pending.next]
  simp only [first, second, apply_ite UInt8.toNat, UInt8.toNat_ofNat, Nat.reducePow,
    Nat.reduceMod]
  refine ⟨?_, ?_, _, rfl, ?_⟩
  · split <;> omega
  · split <;> omega
  · rw [third]
    omega

theorem completes_of_encode_four (low : 0x10000 ≤ c.toNat)
    (encoded : String.utf8EncodeChar c = b :: tail) :
    ∃ p, Pending.open? start b = some p ∧ Completes p tail c.toNat := by
  have valid : c.toNat < 0xD800 ∨ 0xDFFF < c.toNat ∧ c.toNat < 0x110000 := c.valid
  rw [encode_four low] at encoded
  obtain ⟨rfl, rfl⟩ := List.cons.inj encoded
  have first : (UInt8.ofNat (c.toNat / 262144 % 0x08 + 0xF0)).toNat =
      c.toNat / 262144 + 0xF0 := by
    rw [toNat_ofNat_of_lt (by omega)]
    omega
  have second := toNat_ofNat_of_lt (n := c.toNat / 4096 % 0x40 + 0x80) (by omega)
  have third := toNat_ofNat_of_lt (n := c.toNat / 64 % 0x40 + 0x80) (by omega)
  have fourth := toNat_ofNat_of_lt (n := c.toNat % 0x40 + 0x80) (by omega)
  refine ⟨_, open?_eq_some_iff.mpr (.inr (.inr ⟨by omega, by omega, rfl⟩)), ?_⟩
  rw [completes_more_iff (by simp)]
  refine ⟨_, _, rfl, ?_⟩
  rw [completes_more_iff (by simp [Pending.next])]
  dsimp only [Pending.next]
  simp only [first, second, apply_ite UInt8.toNat, UInt8.toNat_ofNat, Nat.reducePow,
    Nat.reduceMod]
  refine ⟨?_, ?_, _, _, rfl, ?_⟩
  · split <;> omega
  · split <;> omega
  · rw [completes_last_iff (by exact Nat.le_refl 1)]
    dsimp only [Pending.next]
    simp only [third, UInt8.toNat_ofNat, Nat.reducePow, Nat.reduceMod]
    refine ⟨by omega, by omega, _, rfl, ?_⟩
    rw [fourth]
    omega

theorem completes_of_encode (start : Nat) (encoded : String.utf8EncodeChar c = b :: tail)
    (several : 0x80 ≤ c.toNat) :
    ∃ p, Pending.open? start b = some p ∧ Completes p tail c.toNat := by
  by_cases two : c.toNat < 0x800
  · exact completes_of_encode_two several two encoded
  · by_cases three : c.toNat < 0x10000
    · exact completes_of_encode_three (by omega) three encoded
    · exact completes_of_encode_four (by omega) encoded

theorem exists_encode_eq_cons (c : Char) : ∃ b tail, String.utf8EncodeChar c = b :: tail := by
  refine List.exists_cons_of_length_pos ?_
  rw [String.length_utf8EncodeChar]
  exact c.utf8Size_pos

theorem decodeFrom_none_cons_of_lt (small : b < 0x80) :
    decodeFrom none pos done (b :: bytes) =
      decodeFrom none (pos + 1) (Char.ofNat b.toNat :: done) bytes := by
  rw [decodeFrom]
  exact if_pos small

theorem decodeFrom_none_cons_of_open? (large : ¬ b < 0x80) (opened : Pending.open? pos b = some p) :
    decodeFrom none pos done (b :: bytes) = decodeFrom (some p) (pos + 1) done bytes := by
  rw [decodeFrom, if_neg large, opened]

/-- One character is split off, and reading goes on with the rest. -/
theorem exists_encode_of_decodeFrom (read : decodeFrom none pos done (b :: bytes) = .ok text) :
    ∃ c rest pos', b :: bytes = String.utf8EncodeChar c ++ rest ∧
      decodeFrom none pos' (c :: done) rest = .ok text := by
  by_cases small : b < 0x80
  · have fits : b.toNat < 0x80 := small
    have point := toNat_ofNat_of_isValidChar (n := b.toNat) (.inl (by omega))
    have encoded : String.utf8EncodeChar (Char.ofNat b.toNat) = [b] := by
      rw [encode_one (by omega), point, UInt8.ofNat_toNat]
    rw [decodeFrom_none_cons_of_lt small] at read
    exact ⟨_, bytes, _, by rw [encoded]; rfl, read⟩
  · cases opened : Pending.open? pos b with
    | none =>
      rw [decodeFrom, if_neg small, opened] at read
      cases read
    | some p =>
      rw [decodeFrom_none_cons_of_open? small opened] at read
      obtain ⟨tail, rest, n, rfl, completes, read⟩ := decodeFrom_some_iff.mp read
      refine ⟨_, rest, _, ?_, read⟩
      rw [(encode_of_completes opened completes).2]
      rfl

theorem decodeFrom_encode (read : ∀ pos, decodeFrom none pos (c :: done) bytes = .ok text) :
    decodeFrom none pos done (String.utf8EncodeChar c ++ bytes) = .ok text := by
  by_cases small : c.toNat < 0x80
  · have fits : UInt8.ofNat c.toNat < 0x80 := by
      rw [UInt8.lt_iff_toNat_lt, toNat_ofNat_of_lt (by omega)]
      exact small
    rw [encode_one small, List.singleton_append, decodeFrom_none_cons_of_lt fits,
      toNat_ofNat_of_lt (by omega), Char.ofNat_toNat]
    exact read _
  · obtain ⟨b, tail, encoded⟩ := exists_encode_eq_cons c
    obtain ⟨p, opened, completes⟩ := completes_of_encode pos encoded (by omega)
    have large : ¬ b < 0x80 := Nat.not_lt.mpr (encode_of_completes opened completes).1
    rw [encoded, List.cons_append, decodeFrom_none_cons_of_open? large opened, decodeFrom_some_iff]
    refine ⟨tail, bytes, c.toNat, rfl, completes, ?_⟩
    rw [Char.ofNat_toNat]
    exact read _

theorem decodeFrom_flatMap_encode (chars : List Char) :
    decodeFrom none pos done (chars.flatMap String.utf8EncodeChar) =
      .ok (done.reverse ++ chars) := by
  induction chars generalizing pos done with
  | nil => rw [List.flatMap_nil, List.append_nil, decodeFrom]
  | cons c chars ih =>
    rw [List.flatMap_cons]
    refine decodeFrom_encode fun pos => ?_
    rw [ih, List.reverse_cons, List.append_assoc]
    rfl

theorem decodeFrom_none_iff : decodeFrom none pos done bytes = .ok text ↔
    ∃ chars, bytes = chars.flatMap String.utf8EncodeChar ∧ text = done.reverse ++ chars := by
  constructor
  · -- Each character takes at least one byte off the rest.
    intro read
    induction size : bytes.length using Nat.strongRecOn generalizing bytes pos done with
    | ind n ih =>
      cases bytes with
      | nil =>
        rw [decodeFrom] at read
        exact ⟨[], rfl, by simpa using (Except.ok.inj read).symm⟩
      | cons b bytes =>
        obtain ⟨c, rest, pos', split, read⟩ := exists_encode_of_decodeFrom read
        have shorter : rest.length < n := by
          rw [← size, split, List.length_append, String.length_utf8EncodeChar]
          have := c.utf8Size_pos
          omega
        obtain ⟨chars, rfl, rfl⟩ := ih _ shorter read rfl
        refine ⟨c :: chars, by rw [split, List.flatMap_cons], ?_⟩
        rw [List.reverse_cons, List.append_assoc]
        rfl
  · rintro ⟨chars, rfl, rfl⟩
    exact decodeFrom_flatMap_encode chars

/-- A text is read from its encoding, and from nothing else. -/
theorem decode_eq_ok_iff : decode bytes = .ok text ↔
    (String.ofList text).toByteArray = bytes.toByteArray := by
  rw [decode, decodeFrom_none_iff, String.toByteArray_ofList, List.utf8Encode, List.toByteArray_inj]
  constructor
  · rintro ⟨chars, rfl, rfl⟩
    rfl
  · intro encoded
    exact ⟨text, encoded.symm, rfl⟩

theorem decode_eq_error_iff : (∃ fault, decode bytes = .error fault) ↔
    ¬ bytes.toByteArray.IsValidUTF8 := by
  constructor
  · rintro ⟨fault, refused⟩ ⟨text, encoded⟩
    rw [decode_eq_ok_iff.mpr (String.toByteArray_ofList.trans encoded.symm)] at refused
    cases refused
  · intro invalid
    cases read : decode bytes with
    | error fault => exact ⟨fault, rfl⟩
    | ok text =>
      refine absurd ⟨text, ?_⟩ invalid
      rw [← decode_eq_ok_iff.mp read, String.toByteArray_ofList]

end RubyIndex.Text.Utf8
