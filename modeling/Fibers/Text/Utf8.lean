import Fibers.Text.Lossy

/-!
What reading bytes means. A character is read where its encoding stands. Elsewhere the bytes
that begin the encoding of some character, as many as there are, become one replacement
character, and so does a single byte that begins none. Every sequence of bytes reads in one
way, and reading finds it.
-/

namespace Fibers.Text

open String (utf8EncodeChar)

/-- The encoding of some character begins with these bytes. -/
def Begins (bytes : List UInt8) : Prop := ∃ c, bytes <+: utf8EncodeChar c

/-- No character stands here, and no more bytes belong to what is not one. -/
structure Malformed (bad rest : List UInt8) : Prop where
  ne_nil : bad ≠ []
  unread (c : Char) : ¬utf8EncodeChar c <+: bad ++ rest
  begins : bad.length = 1 ∨ Begins bad
  longest {byte : UInt8} (hbyte : rest.head? = some byte) : ¬Begins (bad ++ [byte])

/-- The characters that a sequence of bytes stands for. -/
inductive Reads : List UInt8 → List Char → Prop
  | nil : Reads [] []
  | char (c : Char) {rest : List UInt8} {text : List Char} (h : Reads rest text) :
      Reads (utf8EncodeChar c ++ rest) (c :: text)
  | malformed {bad rest : List UInt8} {text : List Char} (hbad : Malformed bad rest)
      (h : Reads rest text) : Reads (bad ++ rest) (replacement :: text)

/-! ### Encodings -/

theorem Begins.of_append {bytes more : List UInt8} (h : Begins (bytes ++ more)) : Begins bytes := by
  obtain ⟨c, hprefix⟩ := h
  exact ⟨c, (List.prefix_append bytes more).trans hprefix⟩

/-- The bytes of a character, as numbers. -/
theorem encoding_cases (c : Char) :
    (c.toNat < 0x80 ∧ (utf8EncodeChar c).map UInt8.toNat = [c.toNat]) ∨
    (0x80 ≤ c.toNat ∧ c.toNat < 0x800 ∧
      (utf8EncodeChar c).map UInt8.toNat = [c.toNat / 64 + 0xC0, c.toNat % 64 + 0x80]) ∨
    (0x800 ≤ c.toNat ∧ c.toNat < 0x10000 ∧ (c.toNat < 0xD800 ∨ 0xDFFF < c.toNat) ∧
      (utf8EncodeChar c).map UInt8.toNat =
        [c.toNat / 4096 + 0xE0, c.toNat / 64 % 64 + 0x80, c.toNat % 64 + 0x80]) ∨
    (0x10000 ≤ c.toNat ∧ c.toNat < 0x110000 ∧
      (utf8EncodeChar c).map UInt8.toNat =
        [c.toNat / 262144 + 0xF0, c.toNat / 4096 % 64 + 0x80, c.toNat / 64 % 64 + 0x80,
          c.toNat % 64 + 0x80]) := by
  have hvalid : c.toNat < 0xD800 ∨ 0xDFFF < c.toNat ∧ c.toNat < 0x110000 := c.valid
  rw [utf8EncodeChar.eq_def]
  change _ ∨ _ ∨ _ ∨ _
  generalize hn : c.toNat = n at hvalid
  have hval : c.val.toNat = n := hn
  simp only [hval]
  split
  next h => exact .inl ⟨by omega, by simp; omega⟩
  split
  next h h' => exact .inr (.inl ⟨by omega, by omega, by simp; omega⟩)
  split
  next h h' h'' => exact .inr (.inr (.inl ⟨by omega, by omega, by omega, by simp; omega⟩))
  next h h' h'' => exact .inr (.inr (.inr ⟨by omega, by omega, by simp; omega⟩))

theorem encoding_ne_nil (c : Char) : utf8EncodeChar c ≠ [] := by
  intro h
  have hcases := encoding_cases c
  rw [h] at hcases
  simp at hcases

theorem toNat_ofNat {n : Nat} (h : n.isValidChar) : (Char.ofNat n).toNat = n := by
  rw [Char.ofNat, dif_pos h]
  rfl

/-- Bytes that are numbers of an encoding are that encoding. -/
theorem encoding_eq {bytes : List UInt8} {c : Char}
    (h : (utf8EncodeChar c).map UInt8.toNat = bytes.map UInt8.toNat) : utf8EncodeChar c = bytes :=
  (List.map_inj_right fun _ _ => UInt8.toNat_inj.1).1 h

/-! ### How far a character has been read -/

/-- What has been read of a character, and what is known of it. -/
inductive Reading.Spells : List UInt8 → Reading → Prop
  | start : Spells [] .start
  | second {a : UInt8} (ha : 0xC2 ≤ a.toNat ∧ a.toNat < 0xE0) :
      Spells [a] (.inside 1 (a.toNat - 0xC0) 0x80 0xBF)
  | secondOfThree {a low high : UInt8} (ha : 0xE0 ≤ a.toNat ∧ a.toNat < 0xF0)
      (hlow : low.toNat = if a.toNat = 0xE0 then 0xA0 else 0x80)
      (hhigh : high.toNat = if a.toNat = 0xED then 0x9F else 0xBF) :
      Spells [a] (.inside 2 (a.toNat - 0xE0) low high)
  | third {a b : UInt8} (ha : 0xE0 ≤ a.toNat ∧ a.toNat < 0xF0)
      (hb : (if a.toNat = 0xE0 then 0xA0 else 0x80) ≤ b.toNat ∧
        b.toNat ≤ if a.toNat = 0xED then 0x9F else 0xBF) :
      Spells [a, b] (.inside 1 ((a.toNat - 0xE0) * 64 + b.toNat % 64) 0x80 0xBF)
  | secondOfFour {a low high : UInt8} (ha : 0xF0 ≤ a.toNat ∧ a.toNat < 0xF5)
      (hlow : low.toNat = if a.toNat = 0xF0 then 0x90 else 0x80)
      (hhigh : high.toNat = if a.toNat = 0xF4 then 0x8F else 0xBF) :
      Spells [a] (.inside 3 (a.toNat - 0xF0) low high)
  | thirdOfFour {a b : UInt8} (ha : 0xF0 ≤ a.toNat ∧ a.toNat < 0xF5)
      (hb : (if a.toNat = 0xF0 then 0x90 else 0x80) ≤ b.toNat ∧
        b.toNat ≤ if a.toNat = 0xF4 then 0x8F else 0xBF) :
      Spells [a, b] (.inside 2 ((a.toNat - 0xF0) * 64 + b.toNat % 64) 0x80 0xBF)
  | fourth {a b c : UInt8} (ha : 0xF0 ≤ a.toNat ∧ a.toNat < 0xF5)
      (hb : (if a.toNat = 0xF0 then 0x90 else 0x80) ≤ b.toNat ∧
        b.toNat ≤ if a.toNat = 0xF4 then 0x8F else 0xBF)
      (hc : 0x80 ≤ c.toNat ∧ c.toNat ≤ 0xBF) :
      Spells [a, b, c]
        (.inside 1 (((a.toNat - 0xF0) * 64 + b.toNat % 64) * 64 + c.toNat % 64) 0x80 0xBF)

/-- A byte that is allowed goes on with the character, and may end it. -/
theorem Reading.Spells.allowed {seen : List UInt8} {missing code : Nat} {low high byte : UInt8}
    (h : Reading.Spells seen (.inside missing code low high)) (hlow : low ≤ byte)
    (hhigh : byte ≤ high) :
    if missing = 1 then utf8EncodeChar (Char.ofNat (code * 64 + byte.toNat % 64)) = seen ++ [byte]
    else Spells (seen ++ [byte])
      (.inside (missing - 1) (code * 64 + byte.toNat % 64) 0x80 0xBF) := by
  rw [UInt8.le_iff_toNat_le] at hlow hhigh
  have hlast : ∀ n : Nat, n.isValidChar →
      (∀ c : Char, c.toNat = n →
        (utf8EncodeChar c).map UInt8.toNat = (seen ++ [byte]).map UInt8.toNat) →
      utf8EncodeChar (Char.ofNat n) = seen ++ [byte] := fun n hvalid hcodes =>
    encoding_eq (hcodes _ (toNat_ofNat hvalid))
  cases h with
  | second ha =>
    simp only [UInt8.reduceToNat] at hlow hhigh
    refine hlast _ (by rw [Nat.isValidChar]; omega) fun c hc => ?_
    rcases encoding_cases c with h | h | h | h
    all_goals first | (exfalso; omega) | skip
    rw [h.2.2, hc]
    simp only [List.cons_append, List.nil_append, List.map_cons, List.map_nil,
      List.cons.injEq, and_true]
    omega
  | @third a b ha hb =>
    simp only [UInt8.reduceToNat] at hlow hhigh
    have hwide : 0x80 ≤ b.toNat ∧ b.toNat ≤ 0xBF := by split at hb <;> split at hb <;> omega
    refine hlast _ (by rw [Nat.isValidChar]; split at hb <;> split at hb <;> omega) fun c hc => ?_
    rcases encoding_cases c with h | h | h | h
    all_goals first | (exfalso; split at hb <;> split at hb <;> omega) | skip
    rw [h.2.2.2, hc]
    simp only [List.cons_append, List.nil_append, List.map_cons, List.map_nil,
      List.cons.injEq, and_true]
    omega
  | @fourth a b _ ha hb hthird =>
    simp only [UInt8.reduceToNat] at hlow hhigh
    have hwide : 0x80 ≤ b.toNat ∧ b.toNat ≤ 0xBF := by split at hb <;> split at hb <;> omega
    refine hlast _ (by rw [Nat.isValidChar]; split at hb <;> split at hb <;> omega) fun c hc => ?_
    rcases encoding_cases c with h | h | h | h
    all_goals first | (exfalso; split at hb <;> split at hb <;> omega) | skip
    rw [h.2.2, hc]
    simp only [List.cons_append, List.nil_append, List.map_cons, List.map_nil,
      List.cons.injEq, and_true]
    omega
  | secondOfThree ha hlow' hhigh' => exact .third ha ⟨hlow' ▸ hlow, hhigh' ▸ hhigh⟩
  | secondOfFour ha hlow' hhigh' => exact .thirdOfFour ha ⟨hlow' ▸ hlow, hhigh' ▸ hhigh⟩
  | thirdOfFour ha hb => exact .fourth ha hb ⟨hlow, hhigh⟩

/-- No character goes on with any other byte. -/
theorem Reading.Spells.refused {seen : List UInt8} {missing code : Nat} {low high byte : UInt8}
    (h : Reading.Spells seen (.inside missing code low high))
    (hbyte : ¬(low ≤ byte ∧ byte ≤ high)) :
    ¬Begins (seen ++ [byte]) := by
  rintro ⟨c, more, hc⟩
  rw [UInt8.le_iff_toNat_le, UInt8.le_iff_toNat_le] at hbyte
  have hcodes := encoding_cases c
  rw [← hc] at hcodes
  cases h <;>
    simp only [List.cons_append, List.nil_append, List.map_cons, List.cons.injEq,
      List.map_eq_nil_iff, reduceCtorEq, and_false, false_or, UInt8.reduceToNat] at hcodes hbyte
  case second ha => omega
  case secondOfThree ha hlow hhigh => split at hlow <;> split at hhigh <;> omega
  case third ha hb => omega
  case secondOfFour ha hlow hhigh => split at hlow <;> split at hhigh <;> omega
  case thirdOfFour ha hb => omega
  case fourth ha hb hc' => omega

/-- What has been read begins a character. -/
theorem Reading.Spells.begins {seen : List UInt8} {missing code : Nat} {low high : UInt8}
    (h : Reading.Spells seen (.inside missing code low high)) : seen ≠ [] ∧ Begins seen := by
  have hone : ∀ {seen : List UInt8} {code : Nat}, Reading.Spells seen (.inside 1 code 0x80 0xBF) →
      Begins seen :=
    fun {seen code} h => by
      have hends := @Reading.Spells.allowed _ _ _ _ _ 0x80 h (by decide) (by decide)
      rw [if_pos rfl] at hends
      exact .of_append ⟨_, [], by rw [List.append_nil, hends]⟩
  have htwo : ∀ {seen : List UInt8} {code : Nat} {low high : UInt8},
      Reading.Spells seen (.inside 2 code low high) → low ≤ high →
      Begins seen := fun {seen code low high} h hle => by
    have hnext := h.allowed (UInt8.le_refl low) hle
    rw [if_neg (by decide)] at hnext
    exact .of_append (hone hnext)
  have hthree : ∀ {seen : List UInt8} {code : Nat} {low high : UInt8},
      Reading.Spells seen (.inside 3 code low high) → low ≤ high →
      Begins seen := fun {seen code low high} h hle => by
    have hnext := h.allowed (UInt8.le_refl low) hle
    rw [if_neg (by decide)] at hnext
    exact .of_append (htwo hnext (by decide))
  have hwhole := h
  cases h with
  | second | third | fourth => exact ⟨List.cons_ne_nil _ _, hone hwhole⟩
  | secondOfThree ha hlow hhigh =>
    refine ⟨List.cons_ne_nil _ _, htwo hwhole ?_⟩
    rw [UInt8.le_iff_toNat_le]
    split at hlow <;> split at hhigh <;> omega
  | thirdOfFour => exact ⟨List.cons_ne_nil _ _, htwo hwhole (by decide)⟩
  | secondOfFour ha hlow hhigh =>
    refine ⟨List.cons_ne_nil _ _, hthree hwhole ?_⟩
    rw [UInt8.le_iff_toNat_le]
    split at hlow <;> split at hhigh <;> omega

/-- What has been read of a character is not all of it, nor of another one. -/
theorem Reading.Spells.not_read {seen : List UInt8} {missing code : Nat} {low high : UInt8}
    (h : Reading.Spells seen (.inside missing code low high)) (c : Char) :
    ¬utf8EncodeChar c <+: seen := by
  rintro ⟨more, hc⟩
  have hcodes := congrArg (List.map UInt8.toNat) hc
  rw [List.map_append] at hcodes
  rcases encoding_cases c with
    ⟨hc, hbytes⟩ | ⟨hc, hc', hbytes⟩ | ⟨hc, hc', -, hbytes⟩ | ⟨hc, hc', hbytes⟩ <;>
    rw [hbytes] at hcodes <;> cases h <;>
    simp only [List.cons_append, List.nil_append, List.map_cons, List.map_nil,
      List.cons.injEq, reduceCtorEq, and_false] at hcodes <;> omega

/-- What comes of a byte at which no character is under way. -/
inductive Begun (byte : UInt8) : List Char × Reading → Prop
  | char {c : Char} (h : utf8EncodeChar c = [byte]) : Begun byte ([c], .start)
  | bad (h : ¬Begins [byte]) : Begun byte ([replacement], .start)
  | inside {missing code : Nat} {low high : UInt8}
      (h : Reading.Spells [byte] (.inside missing code low high)) :
      Begun byte ([], .inside missing code low high)

theorem begun_begin (byte : UInt8) : Begun byte (begin byte) := by
  have hlt := byte.toNat_lt
  have hnone : (0x80 ≤ byte.toNat ∧ byte.toNat < 0xC2 ∨ 0xF5 ≤ byte.toNat) → ¬Begins [byte] := by
    rintro hbyte ⟨c, more, hc⟩
    have hcodes := encoding_cases c
    rw [← hc] at hcodes
    simp only [List.cons_append, List.nil_append, List.map_cons, List.cons.injEq] at hcodes
    omega
  have hless : ∀ n : UInt8, byte < n ↔ byte.toNat < n.toNat := fun n => UInt8.lt_iff_toNat_lt
  have hother : ∀ {n : UInt8}, ¬byte = n → byte.toNat ≠ n.toNat :=
    fun h heq => h (UInt8.toNat_inj.1 heq)
  rw [begin.eq_def]
  simp only [hless, UInt8.reduceToNat]
  split
  next h =>
    refine .char (encoding_eq ?_)
    have hvalid : byte.toNat.isValidChar := by rw [Nat.isValidChar]; omega
    have hnat := toNat_ofNat hvalid
    rcases encoding_cases (Char.ofNat byte.toNat) with ⟨-, hbytes⟩ | hlong | hlong | hlong
    · rw [hbytes, hnat]
      rfl
    all_goals exfalso; omega
  split
  · exact .bad (hnone (by omega))
  split
  · exact .inside (.second (by omega))
  -- the bounds on the second byte leave out what a shorter sequence says already, the
  -- surrogates, and what is above the last character
  split
  next h =>
    subst h
    exact .inside (.secondOfThree (by decide) rfl rfl)
  split
  next h =>
    subst h
    exact .inside (.secondOfThree (by decide) rfl rfl)
  next h h' =>
  have hlow := hother h
  have hhigh := hother h'
  simp only [UInt8.reduceToNat] at hlow hhigh
  split
  · exact .inside (.secondOfThree (by omega) (if_neg hlow).symm (if_neg hhigh).symm)
  split
  next h =>
    subst h
    exact .inside (.secondOfFour (by decide) rfl rfl)
  next h =>
  have hlow := hother h
  simp only [UInt8.reduceToNat] at hlow
  split
  · exact .inside (.secondOfFour (by omega) (if_neg hlow).symm (if_neg (by omega)).symm)
  split
  next h =>
    subst h
    exact .inside (.secondOfFour (by decide) rfl rfl)
  next h =>
    have hlast := hother h
    simp only [UInt8.reduceToNat] at hlast
    exact .bad (hnone (by omega))

/-! ### Reading -/

/-- What has been read of a character ends where no byte goes on with it. -/
theorem Reading.Spells.malformed {seen rest : List UInt8} {missing code : Nat} {low high : UInt8}
    (h : Reading.Spells seen (.inside missing code low high))
    (hrest : ∀ byte, rest.head? = some byte → ¬Begins (seen ++ [byte])) :
    Malformed seen rest where
  ne_nil := h.begins.1
  unread c hread := by
    cases rest with
    | nil => exact h.not_read c (by rwa [List.append_nil] at hread)
    | cons byte rest =>
      rcases Nat.le_total (utf8EncodeChar c).length seen.length with hle | hge
      · exact h.not_read c (List.prefix_of_prefix_length_le hread (List.prefix_append ..) hle)
      · obtain ⟨more, hmore⟩ :=
          List.prefix_of_prefix_length_le (List.prefix_append seen (byte :: rest)) hread hge
        cases more with
        | nil => exact h.not_read c ⟨[], by rw [← hmore, List.append_nil, List.append_nil]⟩
        | cons next more =>
          rw [← hmore, List.prefix_append_right_inj, List.cons_prefix_cons] at hread
          exact hrest byte rfl ⟨c, more, by rw [← hmore, hread.1, List.append_assoc]; rfl⟩
  begins := .inr h.begins.2
  longest hbyte := hrest _ hbyte

theorem malformed_single {byte : UInt8} {rest : List UInt8} (h : ¬Begins [byte]) :
    Malformed [byte] rest where
  ne_nil := List.cons_ne_nil _ _
  unread c hread := by
    cases hbytes : utf8EncodeChar c with
    | nil => exact encoding_ne_nil c hbytes
    | cons first more =>
      rw [hbytes, List.singleton_append, List.cons_prefix_cons] at hread
      exact h ⟨c, hbytes ▸ hread.1 ▸ List.cons_prefix_cons.2 ⟨rfl, List.nil_prefix⟩⟩
  begins := .inl rfl
  longest _ hbegins := h hbegins.of_append

/-- Reading goes on from what has been read of a character. The induction is on the bytes. -/
theorem reads_readFrom (bytes : List UInt8) {seen : List UInt8} {reading : Reading}
    (h : reading.Spells seen) : Reads (seen ++ bytes) (readFrom reading bytes) := by
  induction bytes generalizing seen reading with
  | nil =>
    cases reading with
    | start =>
      cases h
      exact .nil
    | inside => exact .malformed (h.malformed nofun) .nil
  | cons byte rest ih =>
    have hbegins : Reads (byte :: rest) ((begin byte).1 ++ readFrom (begin byte).2 rest) := by
      have hbegun := begun_begin byte
      generalize begin byte = begun at hbegun
      cases hbegun with
      | @char c hc =>
        have hchar := Reads.char c (ih .start)
        rwa [hc] at hchar
      | bad hnone => exact .malformed (malformed_single hnone) (ih .start)
      | inside hspells => exact ih hspells
    rw [readFrom]
    cases reading with
    | start =>
      cases h
      exact hbegins
    | inside missing code low high =>
      rw [advance]
      by_cases hallowed : low ≤ byte ∧ byte ≤ high
      · rw [if_pos hallowed]
        have hmore := h.allowed hallowed.1 hallowed.2
        rw [List.append_cons]
        by_cases hlast : missing = 1
        · rw [if_pos hlast] at hmore ⊢
          exact hmore ▸ .char _ (ih .start)
        · rw [if_neg hlast] at hmore ⊢
          exact ih hmore
      · rw [if_neg hallowed]
        refine .malformed (h.malformed fun next hnext => ?_) hbegins
        cases hnext
        exact h.refused hallowed

/-- The characters that are read from a sequence of bytes are those it stands for. -/
theorem reads_ofBytes (bytes : List UInt8) : Reads bytes (ofBytes bytes).toList := by
  rw [ofBytes, String.toList_ofList]
  exact reads_readFrom bytes .start

/-- No character's encoding goes on to be another one's. -/
theorem eq_of_encoding_prefix {c d : Char} {bytes : List UInt8} (hc : utf8EncodeChar c <+: bytes)
    (hd : utf8EncodeChar d <+: bytes) : c = d := by
  have hread : ∀ {c : Char}, utf8EncodeChar c <+: bytes →
      bytes.toByteArray.utf8DecodeChar? 0 = some c := by
    rintro c ⟨more, rfl⟩
    rw [List.toByteArray_append]
    exact ByteArray.utf8DecodeChar?_utf8EncodeChar_append
  exact Option.some.inj ((hread hc).symm.trans (hread hd))

theorem Malformed.not_longer {bad bad' rest rest' : List UInt8} (h : Malformed bad rest)
    (h' : Malformed bad' rest') (heq : bad ++ rest = bad' ++ rest') : bad'.length ≤ bad.length := by
  refine Nat.not_lt.1 fun hlonger => ?_
  obtain ⟨more, rfl⟩ := List.prefix_of_prefix_length_le (heq ▸ List.prefix_append bad rest)
    (List.prefix_append bad' rest') (Nat.le_of_lt hlonger)
  cases more with
  | nil => simp at hlonger
  | cons byte more =>
    rw [List.append_assoc, List.append_cancel_left_eq] at heq
    have hbegins := h'.begins.resolve_left (by
      have hlength := List.length_pos_iff.2 h.ne_nil
      rw [List.length_append, List.length_cons]
      omega)
    rw [List.append_cons] at hbegins
    exact h.longest (heq ▸ rfl) hbegins.of_append

/-- A sequence of bytes stands for one text only. The induction is on how it reads. -/
theorem Reads.unique {bytes : List UInt8} {text text' : List Char} (h : Reads bytes text)
    (h' : Reads bytes text') : text = text' := by
  induction h generalizing text' with
  | nil =>
    generalize hnil : [] = bytes at h'
    cases h' with
    | nil => rfl
    | char c => exact absurd (List.append_eq_nil_iff.1 hnil.symm).1 (encoding_ne_nil c)
    | malformed hbad => exact absurd (List.append_eq_nil_iff.1 hnil.symm).1 hbad.ne_nil
  | @char c rest text h ih =>
    generalize hbytes : utf8EncodeChar c ++ rest = bytes at h'
    cases h' with
    | nil => exact absurd (List.append_eq_nil_iff.1 hbytes).1 (encoding_ne_nil c)
    | char d hrest =>
      obtain rfl :=
        eq_of_encoding_prefix (List.prefix_append _ rest)
        (hbytes ▸ List.prefix_append (utf8EncodeChar d) _)
      rw [List.append_cancel_left_eq] at hbytes
      subst hbytes
      rw [ih hrest]
    | malformed hbad => exact absurd (hbytes ▸ List.prefix_append ..) (hbad.unread c)
  | @malformed bad rest text hbad h ih =>
    generalize hbytes : bad ++ rest = bytes at h'
    cases h' with
    | nil => exact absurd (List.append_eq_nil_iff.1 hbytes).1 hbad.ne_nil
    | char d => exact absurd (hbytes ▸ List.prefix_append ..) (hbad.unread d)
    | @malformed bad' rest' _ hbad' hrest =>
      have hlength :=
        Nat.le_antisymm (hbad'.not_longer hbad hbytes.symm) (hbad.not_longer hbad' hbytes)
      obtain ⟨rfl, rfl⟩ := List.append_inj hbytes hlength
      rw [ih hrest]

theorem reads_utf8 (text : List Char) : Reads (text.flatMap utf8EncodeChar) text := by
  induction text with
  | nil => exact .nil
  | cons c text ih => exact .char c ih

/-- What is well formed reads as itself. -/
theorem ofBytes_utf8 (text : String) : ofBytes (text.toList.flatMap utf8EncodeChar) = text :=
  String.toList_inj.1 ((reads_ofBytes _).unique (reads_utf8 _))

/-- A zero character is read from a zero byte only. -/
theorem Reads.ne_zero {bytes : List UInt8} {text : List Char} (h : Reads bytes text)
    (hbytes : ∀ byte ∈ bytes, byte ≠ 0) : ∀ c ∈ text, c ≠ Char.ofNat 0 := by
  induction h with
  | nil => exact List.forall_mem_nil _
  | char c h ih =>
    obtain ⟨hfirst, hrest⟩ := List.forall_mem_append.1 hbytes
    refine List.forall_mem_cons.2 ⟨?_, ih hrest⟩
    rintro rfl
    exact hfirst 0 (by decide) rfl
  | malformed hbad h ih =>
    exact List.forall_mem_cons.2 ⟨by decide, ih (List.forall_mem_append.1 hbytes).2⟩

end Fibers.Text
