import ClusterGate.Proofs.Json.Tokens
import ClusterGate.Proofs.Text.Utf8

/-!
# Bytes are read as the text they spell

Outside of strings a JSON source has only characters that are one byte, and inside of them the bytes of
a character are taken together. So the reader of bytes and the reader of texts take the same steps.
Main statement: `readBytes_bytes`.
-/

namespace ClusterGate.Json

open Text

variable {c : Char} {cs rest : List Char}

/-- The bytes of characters, each read as the character of its number. -/
def octets (cs : List Char) : List Char :=
  (cs.flatMap String.utf8EncodeChar).map fun b => Char.ofNat b.toNat

theorem octets_append (cs ds : List Char) : octets (cs ++ ds) = octets cs ++ octets ds := by
  rw [octets, List.flatMap_append, List.map_append, octets, octets]

theorem octets_cons_of_lt (h : c.toNat < 128) : octets (c :: cs) = c :: octets cs := by
  have hencode : String.utf8EncodeChar c = [UInt8.ofNat c.toNat] := by
    unfold String.utf8EncodeChar
    exact if_pos (Nat.le_of_lt_succ h)
  have hbyte : (UInt8.ofNat c.toNat).toNat = c.toNat := by
    rw [UInt8.toNat_ofNat']
    omega
  rw [octets, List.flatMap_cons, hencode, List.singleton_append, List.map_cons, hbyte,
    Char.ofNat_toNat, octets]

theorem toNat_byte (b : UInt8) : (Char.ofNat b.toNat).toNat = b.toNat := by
  have hlt := b.toNat_lt
  rw [Char.ofNat, dif_pos (Or.inl (by omega))]
  rfl

theorem le_of_mem_octets (h : 128 ≤ c.toNat) {d : Char} (hd : d ∈ octets [c]) : 128 ≤ d.toNat := by
  obtain ⟨b, hb, rfl⟩ := List.mem_map.mp hd
  rw [toNat_byte]
  rw [List.flatMap_singleton] at hb
  have hhigh : ¬c.val.toNat ≤ 127 := Nat.not_le.mpr h
  have hlt : c.val.toNat < 0x110000 := by
    rcases c.valid with h | h
    · exact h.trans (by decide)
    · exact h.2
  unfold String.utf8EncodeChar at hb
  simp only [if_neg hhigh] at hb
  generalize c.val.toNat = n at *
  split_ifs at hb
  · simp only [List.mem_cons, List.not_mem_nil, or_false] at hb
    rcases hb with rfl | rfl <;> simp <;> omega
  · simp only [List.mem_cons, List.not_mem_nil, or_false] at hb
    rcases hb with rfl | rfl | rfl <;> simp <;> omega
  · simp only [List.mem_cons, List.not_mem_nil, or_false] at hb
    rcases hb with rfl | rfl | rfl | rfl <;> simp <;> omega

theorem octets_eq_nil : octets cs = [] ↔ cs = [] := by
  rw [octets, List.map_eq_nil_iff, List.flatMap_eq_nil_iff]
  refine ⟨fun h => List.eq_nil_iff_forall_not_mem.mpr fun c hc => encode_ne_nil c (h c hc), ?_⟩
  rintro rfl c hc
  cases hc

/-- The first sign is the first character, or both are beyond ASCII. -/
theorem octets_cons_cases (c : Char) (cs : List Char) :
    (c.toNat < 128 ∧ octets (c :: cs) = c :: octets cs) ∨
      128 ≤ c.toNat ∧ ∃ d ds, 128 ≤ d.toNat ∧ octets (c :: cs) = d :: ds := by
  rcases Nat.lt_or_ge c.toNat 128 with h | h
  · exact Or.inl ⟨h, octets_cons_of_lt h⟩
  · obtain ⟨d, ds, hd⟩ : ∃ d ds, octets [c] = d :: ds :=
      List.exists_cons_of_ne_nil fun hnil => List.cons_ne_nil c [] (octets_eq_nil.mp hnil)
    refine Or.inr ⟨h, d, ds ++ octets cs, le_of_mem_octets h (hd ▸ List.mem_cons_self), ?_⟩
    rw [← List.singleton_append, octets_append, hd, List.cons_append]

theorem octets_append_of_lt (word : List Char) (hword : word.all (·.toNat < 128) = true) :
    octets (word ++ rest) = word ++ octets rest := by
  induction word with
  | nil => rfl
  | cons c word ih =>
    obtain ⟨hc, hothers⟩ := Bool.and_eq_true_iff.mp hword
    have hc := of_decide_eq_true hc
    rw [List.cons_append, octets_cons_of_lt hc, ih hothers, List.cons_append]

/-- Signs of ASCII at the front stand for themselves. -/
theorem eq_append_of_octets (word : List Char) (hword : word.all (·.toNat < 128) = true)
    (h : octets cs = word ++ rest) : ∃ ds, cs = word ++ ds ∧ rest = octets ds := by
  induction word generalizing cs with
  | nil => exact ⟨cs, rfl, h.symm⟩
  | cons w word ih =>
    obtain ⟨hw, hothers⟩ := Bool.and_eq_true_iff.mp hword
    have hw := of_decide_eq_true hw
    cases cs with
    | nil => cases h
    | cons c cs =>
      rcases octets_cons_cases c cs with ⟨_, hcons⟩ | ⟨_, d, ds, hd, hcons⟩
      · rw [hcons, List.cons_append] at h
        obtain ⟨rfl, htail⟩ := List.cons.inj h
        obtain ⟨ds, rfl, hrest⟩ := ih hothers htail
        exact ⟨ds, rfl, hrest⟩
      · rw [hcons, List.cons_append] at h
        obtain ⟨rfl, -⟩ := List.cons.inj h
        omega

section While

variable {p : Char → Bool} (hp : ∀ c, p c = true → c.toNat < 128)
include hp

theorem while_octets (cs : List Char) :
    (octets cs).takeWhile p = cs.takeWhile p ∧ (octets cs).dropWhile p = octets (cs.dropWhile p) := by
  have hhigh : ∀ c, 128 ≤ c.toNat → p c = false := fun c hc =>
    Bool.eq_false_iff.mpr fun hpc => Nat.not_lt.mpr hc (hp c hpc)
  induction cs with
  | nil => exact ⟨rfl, rfl⟩
  | cons c cs ih =>
    rcases octets_cons_cases c cs with ⟨_, hcons⟩ | ⟨hc, d, ds, hd, hcons⟩
    · rw [hcons]
      cases hpc : p c with
      | true => simp [hpc, ih]
      | false => simp [hpc, hcons]
    · simp [hhigh c hc, hcons, hhigh d hd]

end While

theorem skipSpace_octets (cs : List Char) : skipSpace (octets cs) = octets (skipSpace cs) := by
  refine (while_octets (fun c hc => ?_) cs).2
  simp only [isSpace, Bool.or_eq_true, beq_iff_eq] at hc
  rcases hc with ((rfl | rfl) | rfl) | rfl <;> decide

theorem lt_of_isDigit (h : isDigit c = true) : c.toNat < 128 := by
  have hle : c.toNat ≤ '9'.toNat := of_decide_eq_true (Bool.and_eq_true_iff.mp h).2
  exact hle.trans_lt (by decide)

/-- What was read, and the octets of what is left. -/
def inOctets {α : Type} (read : Option (α × List Char)) : Option (α × List Char) :=
  read.map fun part => (part.1, octets part.2)

/-! ### Numbers -/

theorem someDigits_octets (cs : List Char) : someDigits (octets cs) = inOctets (someDigits cs) := by
  obtain ⟨htake, hdrop⟩ := while_octets (fun _ => lt_of_isDigit) cs
  rw [someDigits, someDigits, htake, hdrop]
  cases cs.takeWhile isDigit <;> rfl

theorem readSign_octets (cs : List Char) :
    readSign (octets cs) = ((readSign cs).1, octets (readSign cs).2) := by
  unfold readSign
  split
  next heq =>
    obtain ⟨ds, rfl, rfl⟩ := eq_append_of_octets ['-'] (by decide) heq
    rfl
  next heq =>
    obtain ⟨ds, rfl, rfl⟩ := eq_append_of_octets ['+'] (by decide) heq
    rfl
  next hminus hplus =>
    split
    next rest => exact absurd (octets_cons_of_lt (by decide)) (hminus (octets rest))
    next rest => exact absurd (octets_cons_of_lt (by decide)) (hplus (octets rest))
    next => rfl

theorem readFraction_octets (cs : List Char) :
    readFraction (octets cs) = inOctets (readFraction cs) := by
  unfold readFraction
  split
  next heq =>
    obtain ⟨ds, rfl, rfl⟩ := eq_append_of_octets ['.'] (by decide) heq
    simp only [List.singleton_append, someDigits_octets]
    cases someDigits ds <;> rfl
  next hpoint =>
    split
    next rest => exact absurd (octets_cons_of_lt (by decide)) (hpoint (octets rest))
    next => rfl

theorem readExponent_octets (cs : List Char) :
    readExponent (octets cs) = inOctets (readExponent cs) := by
  cases cs with
  | nil => rfl
  | cons c cs =>
    rcases octets_cons_cases c cs with ⟨_, hcons⟩ | ⟨hc, d, ds, hd, hcons⟩
    · rw [hcons, readExponent, readExponent]
      split_ifs
      · simp only [readSign_octets, someDigits_octets]
        cases someDigits (readSign cs).2 <;> rfl
      · rw [inOctets, Option.map_some, hcons]
    · have hne : ∀ e, 128 ≤ e.toNat → ¬(e = 'e' ∨ e = 'E') := by
        rintro e he (rfl | rfl)
        · exact absurd he (by decide)
        · exact absurd he (by decide)
      rw [hcons, readExponent, readExponent, if_neg (hne d hd), if_neg (hne c hc), inOctets,
        Option.map_some, hcons]

theorem readMagnitude_octets (negative : Bool) (cs : List Char) :
    readMagnitude negative (octets cs) = inOctets (readMagnitude negative cs) := by
  rw [readMagnitude, readMagnitude, someDigits_octets]
  cases someDigits cs with
  | none => rfl
  | some digits =>
    obtain ⟨digits, rest⟩ := digits
    simp only [inOctets, Option.map_some, Option.bind_eq_bind, Option.bind_some]
    split_ifs
    · rfl
    · rw [readFraction_octets]
      cases readFraction rest with
      | none => rfl
      | some fraction =>
        obtain ⟨fraction, rest⟩ := fraction
        simp only [inOctets, Option.map_some, Option.bind_some, readExponent_octets]
        cases readExponent rest <;> rfl

theorem readNumber_octets (cs : List Char) :
    readNumber (octets cs) = inOctets (readNumber cs) := by
  unfold readNumber
  split
  next heq =>
    obtain ⟨ds, rfl, rfl⟩ := eq_append_of_octets ['-'] (by decide) heq
    exact readMagnitude_octets true ds
  next hminus =>
    split
    next rest => exact absurd (octets_cons_of_lt (by decide)) (hminus (octets rest))
    next => exact readMagnitude_octets false cs

/-! ### Strings -/

/-- A piece of a string, as the pieces of its octets. -/
def octetPieces : Piece → List Piece
  | .char c => (octets [c]).map .char
  | .unit n => [.unit n]

theorem octetPieces_of_lt (h : c.toNat < 128) : octetPieces (.char c) = [.char c] := by
  rw [octetPieces, octets_cons_of_lt h]
  rfl

/-- Signs beyond ASCII stand for themselves inside a string. -/
theorem pieces_append_of_le {high : List Char} (hhigh : ∀ c ∈ high, 128 ≤ c.toNat) (cs : List Char) :
    pieces (high ++ cs) = (pieces cs).map fun (ps, rest) => (high.map .char ++ ps, rest) := by
  induction high with
  | nil => cases h : pieces cs <;> simp [h]
  | cons c high ih =>
    obtain ⟨hc, hothers⟩ := List.forall_mem_cons.mp hhigh
    have hquote : c ≠ '"' := by
      rintro rfl
      exact absurd hc (by decide)
    have hslash : c ≠ '\\' := by
      rintro rfl
      exact absurd hc (by decide)
    rw [List.cons_append, pieces_plain (by omega) hquote hslash, ih hothers]
    cases pieces cs <;> rfl

theorem lt_of_hexValue? {n : Nat} (h : hexValue? c = some n) : c.toNat < 128 := by
  unfold hexValue? at h
  split_ifs at h with hdigit hsmall hcapital
  · exact hdigit.2.trans_lt (b := '9'.toNat) (by decide)
  · exact hsmall.2.trans_lt (b := 'f'.toNat) (by decide)
  · exact hcapital.2.trans_lt (b := 'F'.toNat) (by decide)

theorem lt_of_fourHex? {a b d : Char} {n : Nat} (h : fourHex? a b c d = some n) :
    ∀ e ∈ [a, b, c, d], e.toNat < 128 := by
  obtain ⟨na, ha, h⟩ := Option.bind_eq_some_iff.mp h
  obtain ⟨nb, hb, h⟩ := Option.bind_eq_some_iff.mp h
  obtain ⟨nc, hc, h⟩ := Option.bind_eq_some_iff.mp h
  obtain ⟨nd, hd, -⟩ := Option.bind_eq_some_iff.mp h
  simp only [List.forall_mem_cons]
  exact ⟨lt_of_hexValue? ha, lt_of_hexValue? hb, lt_of_hexValue? hc, lt_of_hexValue? hd, nofun⟩

theorem lt_of_escaped? {e : Char} (h : escaped? e = some c) : e.toNat < 128 ∧ c.toNat < 128 := by
  unfold escaped? at h
  split at h <;> cases h <;> decide

theorem pieces_unescaped {e : Char} (h : escaped? e = none) (hu : e ≠ 'u') :
    pieces ('\\' :: e :: cs) = none := by
  rw [pieces.eq_def]
  split
  next heq => cases heq
  next heq => cases heq
  next heq =>
    cases heq
    exact absurd rfl hu
  next heq =>
    cases heq
    rw [h]
    rfl
  next hother heq =>
    cases heq
    exact absurd rfl (hother e cs rfl)

theorem pieces_control (h : c.toNat < 0x20) : pieces (c :: cs) = none := by
  rw [pieces.eq_def]
  split
  next heq => cases heq
  next heq =>
    cases heq
    exact absurd h (by decide)
  next heq =>
    cases heq
    exact absurd h (by decide)
  next heq =>
    cases heq
    exact absurd h (by decide)
  next heq =>
    cases heq
    exact if_pos (Or.inl h)

theorem pieces_unit_none (h : ∀ a b c d rest, cs = a :: b :: c :: d :: rest → fourHex? a b c d = none) :
    pieces ('\\' :: 'u' :: cs) = none := by
  rw [pieces.eq_def]
  split
  next heq => cases heq
  next heq => cases heq
  next heq =>
    cases heq
    rw [h _ _ _ _ _ rfl]
    rfl
  next heq =>
    cases heq
    rfl
  next hother heq =>
    cases heq
    exact absurd rfl (hother 'u' cs rfl)

/-- Digits of a unit that are missing are missing among the octets. -/
theorem pieces_octets_unit_none
    (h : ∀ a b c d rest, cs = a :: b :: c :: d :: rest → fourHex? a b c d = none) :
    pieces (octets ('\\' :: 'u' :: cs)) = none := by
  rw [octets_cons_of_lt (by decide), octets_cons_of_lt (by decide)]
  refine pieces_unit_none fun a b c d rest heq => ?_
  cases hhex : fourHex? a b c d with
  | none => rfl
  | some n =>
    obtain ⟨ds, rfl, -⟩ := eq_append_of_octets [a, b, c, d]
      (List.all_eq_true.mpr fun e he => decide_eq_true (lt_of_fourHex? hhex e he)) heq
    rw [h a b c d ds rfl] at hhex
    cases hhex

theorem pieces_octets_escape {e : Char} (hu : e ≠ 'u') : pieces (octets ('\\' :: e :: cs)) =
    match escaped? e with
    | some c => (pieces (octets cs)).map fun (ps, rest) => (.char c :: ps, rest)
    | none => none := by
  rw [octets_cons_of_lt (by decide)]
  have hnone : ∀ {d : Char}, 128 ≤ d.toNat → escaped? d = none ∧ d ≠ 'u' := by
    intro d hd
    refine ⟨?_, ?_⟩
    · cases hescape : escaped? d with
      | none => rfl
      | some c => exact absurd (lt_of_escaped? hescape).1 (Nat.not_lt.mpr hd)
    · rintro rfl
      exact absurd hd (by decide)
  rcases octets_cons_cases e cs with ⟨_, hcons⟩ | ⟨he, d, ds, hd, hcons⟩
  · rw [hcons]
    cases hescape : escaped? e with
    | none => exact pieces_unescaped hescape hu
    | some c => exact pieces_escaped hescape
  · rw [hcons, (hnone he).1]
    exact pieces_unescaped (hnone hd).1 (hnone hd).2

theorem pieces_octets (cs : List Char) : pieces (octets cs) =
    (pieces cs).map fun (ps, rest) => (ps.flatMap octetPieces, octets rest) := by
  fun_induction pieces cs with
  | case1 => rfl
  | case2 rest =>
    rw [octets_cons_of_lt (by decide)]
    rfl
  | case3 a b c d rest ih =>
    cases hhex : fourHex? a b c d with
    | none =>
      refine pieces_octets_unit_none fun a' b' c' d' rest' heq => ?_
      cases heq
      exact hhex
    | some n =>
      have hlt := lt_of_fourHex? hhex
      simp only [List.forall_mem_cons] at hlt
      obtain ⟨ha, hb, hc, hd, -⟩ := hlt
      rw [octets_cons_of_lt (by decide), octets_cons_of_lt (by decide), octets_cons_of_lt ha,
        octets_cons_of_lt hb, octets_cons_of_lt hc, octets_cons_of_lt hd, pieces, hhex]
      simp only [Option.bind_eq_bind, Option.bind_some, ih]
      cases pieces rest <;> rfl
  | case4 e rest hunit ih =>
    by_cases hu : e = 'u'
    · subst hu
      exact pieces_octets_unit_none fun a b c d ds hds => (hunit a b c d ds rfl hds).elim
    · rw [pieces_octets_escape hu, ih]
      cases hescape : escaped? e with
      | none => rfl
      | some c =>
        have hself := octetPieces_of_lt (lt_of_escaped? hescape).2
        cases pieces rest <;> simp [hself]
  | case5 c rest hquote hunit hslash hcontrol =>
    rcases hcontrol with hcontrol | rfl
    · rw [octets_cons_of_lt (by omega), pieces_control hcontrol]
      rfl
    · cases rest with
      | nil => rfl
      | cons e rest => exact (hslash e rest rfl rfl).elim
  | case6 c rest hquote hunit hslash hplain ih =>
    push Not at hplain
    rcases Nat.lt_or_ge c.toNat 128 with hlt | hge
    · rw [octets_cons_of_lt hlt, pieces_plain hplain.1 hquote hplain.2, ih]
      have hself := octetPieces_of_lt hlt
      cases pieces rest <;> simp [hself]
    · rw [← List.singleton_append, octets_append,
        pieces_append_of_le fun d hd => le_of_mem_octets hge hd, ih]
      cases pieces rest <;> rfl

/-- The bytes of a character inside a string are taken together. -/
theorem joinPieces_octet (bytes : List UInt8) (coded : Char → List UInt8) (ps : List Piece) :
    joinPieces (fun c => [c.toNat.toUInt8]) coded
        ((bytes.map fun b => Char.ofNat b.toNat).map .char ++ ps) =
      (joinPieces (fun c => [c.toNat.toUInt8]) coded ps).map (bytes ++ ·) := by
  induction bytes with
  | nil => simp
  | cons b bytes ih =>
    rw [List.map_cons, List.map_cons, List.cons_append, joinPieces, ih, toNat_byte]
    simp [Function.comp_def]

theorem joinPieces_octets (ps : List Piece) :
    joinPieces (fun c => [c.toNat.toUInt8]) String.utf8EncodeChar (ps.flatMap octetPieces) =
      (joinPieces (fun c => [c]) (fun c => [c]) ps).map (List.flatMap String.utf8EncodeChar) := by
  fun_induction joinPieces (fun c : Char => [c]) (fun c : Char => [c]) ps with
  | case1 => rfl
  | case2 c rest ih =>
    rw [List.flatMap_cons, octetPieces, octets, List.flatMap_singleton, joinPieces_octet, ih]
    simp [Function.comp_def]
  | case3 hi rest hplain ih =>
    rw [List.flatMap_cons, octetPieces, List.singleton_append, joinPieces.eq_def]
    simp only [if_pos hplain, ih]
    simp [Function.comp_def]
  | case4 hi hpair lo rest hlow ih =>
    simp only [List.flatMap_cons, octetPieces, List.singleton_append]
    rw [joinPieces, if_neg hpair]
    simp only [if_pos hlow, ih]
    simp [Function.comp_def]
  | case5 hi hpair lo rest hlow =>
    simp only [List.flatMap_cons, octetPieces, List.singleton_append]
    rw [joinPieces, if_neg hpair]
    simp only [if_neg hlow, Option.map_none]
  | case6 hi rest hpair hother =>
    -- half a pair is followed by no unit, and so by no unit among the octets
    have hnone : ∀ lo ps, rest.flatMap octetPieces = .unit lo :: ps → False := by
      intro lo ps hps
      rcases rest with _ | ⟨⟨c⟩ | ⟨lo⟩, rest⟩
      · cases hps
      · obtain ⟨d, ds, hd⟩ : ∃ d ds, octets [c] = d :: ds :=
          List.exists_cons_of_ne_nil fun hnil => List.cons_ne_nil c [] (octets_eq_nil.mp hnil)
        rw [List.flatMap_cons, octetPieces, hd] at hps
        cases hps
      · exact hother lo rest rfl
    rw [List.flatMap_cons, octetPieces, List.singleton_append, joinPieces, if_neg hpair]
    · rfl
    · exact hnone

theorem ofOctets_octetPieces (ps : List Piece) : ofOctets (ps.flatMap octetPieces) = ofSigns ps := by
  rw [ofOctets, ofSigns, joinPieces_octets]
  cases joinPieces (fun c => [c]) (fun c => [c]) ps with
  | none => rfl
  | some cs =>
    have hread := fromUTF8?_bytes (String.ofList cs)
    rw [bytes_eq, String.toList_ofList] at hread
    exact hread

theorem readString_octets (cs : List Char) :
    readString ofOctets (octets cs) = inOctets (readString ofSigns cs) := by
  rw [readString, readString, pieces_octets]
  cases pieces cs with
  | none => rfl
  | some read => simp [inOctets, ofOctets_octetPieces]

/-! ### Values -/

section Step

variable {fuel : Nat}
  (hvalue : ∀ depth cs,
    readValue ofOctets fuel depth (octets cs) = inOctets (readValue ofSigns fuel depth cs))
  (helements : ∀ depth cs,
    readElements ofOctets fuel depth (octets cs) = inOctets (readElements ofSigns fuel depth cs))
  (hmembers : ∀ depth cs,
    readMembers ofOctets fuel depth (octets cs) = inOctets (readMembers ofSigns fuel depth cs))

include hvalue helements in
theorem readElements_octets_succ (depth : Nat) (cs : List Char) :
    readElements ofOctets (fuel + 1) depth (octets cs) =
      inOctets (readElements ofSigns (fuel + 1) depth cs) := by
  rw [readElements, readElements, hvalue]
  cases readValue ofSigns fuel depth cs with
  | none => rfl
  | some read =>
    obtain ⟨d, rest⟩ := read
    simp only [inOctets, Option.map_some, Option.bind_eq_bind, Option.bind_some, skipSpace_octets]
    generalize skipSpace rest = after
    split
    next heq =>
      obtain ⟨ds, rfl, rfl⟩ := eq_append_of_octets [','] (by decide) heq
      simp only [List.singleton_append, helements]
      cases readElements ofSigns fuel depth ds <;> rfl
    next heq =>
      obtain ⟨ds, rfl, rfl⟩ := eq_append_of_octets [']'] (by decide) heq
      rfl
    next hcomma hclose =>
      split
      next rest => exact absurd (octets_cons_of_lt (by decide)) (hcomma (octets rest))
      next rest => exact absurd (octets_cons_of_lt (by decide)) (hclose (octets rest))
      next => rfl

include hvalue hmembers in
theorem readMembers_octets_succ (depth : Nat) (cs : List Char) :
    readMembers ofOctets (fuel + 1) depth (octets cs) =
      inOctets (readMembers ofSigns (fuel + 1) depth cs) := by
  rw [readMembers, readMembers, skipSpace_octets]
  generalize skipSpace cs = quoted
  split
  next heq =>
    obtain ⟨ds, rfl, rfl⟩ := eq_append_of_octets ['"'] (by decide) heq
    simp only [List.singleton_append, readString_octets]
    cases readString ofSigns ds with
    | none => rfl
    | some read =>
      obtain ⟨key, rest⟩ := read
      simp only [inOctets, Option.map_some, Option.bind_eq_bind, Option.bind_some, skipSpace_octets]
      generalize skipSpace rest = named
      split
      next heq =>
        obtain ⟨ds, rfl, rfl⟩ := eq_append_of_octets [':'] (by decide) heq
        simp only [List.singleton_append, hvalue]
        cases readValue ofSigns fuel depth ds with
        | none => rfl
        | some read =>
          obtain ⟨d, rest⟩ := read
          simp only [inOctets, Option.map_some, Option.bind_some, skipSpace_octets]
          generalize skipSpace rest = after
          split
          next heq =>
            obtain ⟨ds, rfl, rfl⟩ := eq_append_of_octets [','] (by decide) heq
            simp only [List.singleton_append, hmembers]
            cases readMembers ofSigns fuel depth ds <;> rfl
          next heq =>
            obtain ⟨ds, rfl, rfl⟩ := eq_append_of_octets ['\x7d'] (by decide) heq
            rfl
          next hcomma hclose =>
            split
            next rest => exact absurd (octets_cons_of_lt (by decide)) (hcomma (octets rest))
            next rest => exact absurd (octets_cons_of_lt (by decide)) (hclose (octets rest))
            next => rfl
      next hcolon =>
        split
        next rest => exact absurd (octets_cons_of_lt (by decide)) (hcolon (octets rest))
        next => rfl
  next hquote =>
    split
    next rest => exact absurd (octets_cons_of_lt (by decide)) (hquote (octets rest))
    next => rfl

include helements hmembers in
theorem readValue_octets_succ (depth : Nat) (cs : List Char) :
    readValue ofOctets (fuel + 1) depth (octets cs) =
      inOctets (readValue ofSigns (fuel + 1) depth cs) := by
  rw [readValue, readValue, skipSpace_octets]
  generalize skipSpace cs = begun
  split
  next heq =>
    obtain ⟨ds, rfl, rfl⟩ := eq_append_of_octets ['n', 'u', 'l', 'l'] (by decide) heq
    rfl
  next heq =>
    obtain ⟨ds, rfl, rfl⟩ := eq_append_of_octets ['t', 'r', 'u', 'e'] (by decide) heq
    rfl
  next heq =>
    obtain ⟨ds, rfl, rfl⟩ := eq_append_of_octets ['f', 'a', 'l', 's', 'e'] (by decide) heq
    rfl
  next heq =>
    obtain ⟨ds, rfl, rfl⟩ := eq_append_of_octets ['"'] (by decide) heq
    simp only [List.singleton_append, readString_octets]
    cases readString ofSigns ds <;> rfl
  next heq =>
    obtain ⟨ds, rfl, rfl⟩ := eq_append_of_octets ['['] (by decide) heq
    simp only [List.singleton_append, skipSpace_octets, helements]
    generalize skipSpace ds = inner
    split
    next heq =>
      obtain ⟨rest, rfl, rfl⟩ := eq_append_of_octets [']'] (by decide) heq
      rfl
    next hclose =>
      split
      next rest => exact absurd (octets_cons_of_lt (by decide)) (hclose (octets rest))
      next => cases readElements ofSigns fuel (depth + 1) ds <;> rfl
  next heq =>
    obtain ⟨ds, rfl, rfl⟩ := eq_append_of_octets ['\x7b'] (by decide) heq
    simp only [List.singleton_append, skipSpace_octets, hmembers]
    generalize skipSpace ds = inner
    split
    next heq =>
      obtain ⟨rest, rfl, rfl⟩ := eq_append_of_octets ['\x7d'] (by decide) heq
      rfl
    next hclose =>
      split
      next rest => exact absurd (octets_cons_of_lt (by decide)) (hclose (octets rest))
      next => cases readMembers ofSigns fuel (depth + 1) ds <;> rfl
  next hnull htrue hfalse hquote harray hobject =>
    split
    next rest =>
      exact absurd (octets_append_of_lt ['n', 'u', 'l', 'l'] (by decide)) (hnull (octets rest))
    next rest =>
      exact absurd (octets_append_of_lt ['t', 'r', 'u', 'e'] (by decide)) (htrue (octets rest))
    next rest =>
      exact absurd (octets_append_of_lt ['f', 'a', 'l', 's', 'e'] (by decide))
        (hfalse (octets rest))
    next rest => exact absurd (octets_cons_of_lt (by decide)) (hquote (octets rest))
    next rest => exact absurd (octets_cons_of_lt (by decide)) (harray (octets rest))
    next rest => exact absurd (octets_cons_of_lt (by decide)) (hobject (octets rest))
    next =>
      rw [readNumber_octets]
      cases readNumber begun <;> rfl

end Step

/-- The reader of bytes takes the steps of the reader of texts. -/
theorem read_octets (fuel : Nat) :
    (∀ depth cs, readValue ofOctets fuel depth (octets cs) =
      inOctets (readValue ofSigns fuel depth cs)) ∧
    (∀ depth cs, readElements ofOctets fuel depth (octets cs) =
      inOctets (readElements ofSigns fuel depth cs)) ∧
    ∀ depth cs, readMembers ofOctets fuel depth (octets cs) =
      inOctets (readMembers ofSigns fuel depth cs) := by
  induction fuel with
  | zero => exact ⟨fun _ _ => rfl, fun _ _ => rfl, fun _ _ => rfl⟩
  | succ fuel ih =>
    obtain ⟨hvalue, helements, hmembers⟩ := ih
    exact ⟨readValue_octets_succ helements hmembers, readElements_octets_succ hvalue helements,
      readMembers_octets_succ hvalue hmembers⟩

theorem readBytes_bytes (s : String) : readBytes (bytes s) = readText s := by
  have hoctets : (bytes s).map (fun b => Char.ofNat b.toNat) = octets s.toList := by
    rw [bytes_eq, octets]
  rw [readBytes, readText, hoctets, length_bytes, readSource, readSource, (read_octets _).1]
  cases readValue ofSigns (2 * s.utf8ByteSize + 2) 0 s.toList with
  | none => rfl
  | some read =>
    obtain ⟨d, rest⟩ := read
    simp only [inOctets, Option.map_some, Option.bind_eq_bind, Option.bind_some, skipSpace_octets,
      octets_eq_nil]

end ClusterGate.Json
