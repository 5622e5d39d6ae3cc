import ClusterGate.Proofs.Json.Tokens
import ClusterGate.Proofs.Text.Utf8

/-!
# Documents are read back

A document whose numbers are whole numbers of 64 bits, and which nests no deeper than readers go, is
read as it was laid out. Main statement: `readText_pretty`.
-/

namespace ClusterGate.Json

open Text

mutual

/-- Every number is a whole number of 64 bits, with or without sign. -/
def Integral : Json → Prop
  | .int n => IsWord n
  | .double _ => False
  | .arr elements => IntegralElements elements
  | .obj members => IntegralMembers members
  | _ => True

def IntegralElements : List Json → Prop
  | [] => True
  | v :: rest => Integral v ∧ IntegralElements rest

def IntegralMembers : List (String × Json) → Prop
  | [] => True
  | (_, v) :: rest => Integral v ∧ IntegralMembers rest

end

mutual

def nesting : Json → Nat
  | .arr elements => nestingElements elements + 1
  | .obj members => nestingMembers members + 1
  | _ => 0

def nestingElements : List Json → Nat
  | [] => 0
  | v :: rest => max (nesting v) (nestingElements rest)

def nestingMembers : List (String × Json) → Nat
  | [] => 0
  | (_, v) :: rest => max (nesting v) (nestingMembers rest)

end

variable {rest : List Char} {fuel level : Nat}

theorem readValue_breakLine (depth : Nat) (cs : List Char) :
    readValue ofSigns fuel level (breakLine depth ++ cs) = readValue ofSigns fuel level cs := by
  cases fuel with
  | zero => rfl
  | succ fuel => rw [readValue, readValue, skipSpace_breakLine]

theorem readValue_blank (cs : List Char) :
    readValue ofSigns fuel level (' ' :: cs) = readValue ofSigns fuel level cs := by
  cases fuel <;> rfl

theorem readElements_breakLine (depth : Nat) (cs : List Char) :
    readElements ofSigns fuel level (breakLine depth ++ cs) = readElements ofSigns fuel level cs := by
  cases fuel with
  | zero => rfl
  | succ fuel => rw [readElements, readElements, readValue_breakLine]

theorem readMembers_breakLine (depth : Nat) (cs : List Char) :
    readMembers ofSigns fuel level (breakLine depth ++ cs) = readMembers ofSigns fuel level cs := by
  cases fuel with
  | zero => rfl
  | succ fuel => rw [readMembers, readMembers, skipSpace_breakLine]

/-! ### Single values -/

theorem readValue_number {c : Char} {cs : List Char} (h : isDigit c = true ∨ c = '-') :
    readValue ofSigns (fuel + 1) level (c :: cs) =
      (readNumber (c :: cs)).map fun (l, rest) => (l.read, rest) := by
  have hne : ∀ d, isDigit d = false → d ≠ '-' → c ≠ d := by
    rintro d hdigit hminus rfl
    rcases h with h | h
    · rw [hdigit] at h
      cases h
    · exact hminus h
  have hspace : isSpace c = false := by
    simp [isSpace, hne ' ' rfl (by decide), hne '\n' rfl (by decide), hne '\t' rfl (by decide),
      hne '\r' rfl (by decide)]
  rw [readValue, skipSpace_of_not hspace]
  split
  next heq => exact absurd (List.cons.inj heq).1 (hne 'n' rfl (by decide))
  next heq => exact absurd (List.cons.inj heq).1 (hne 't' rfl (by decide))
  next heq => exact absurd (List.cons.inj heq).1 (hne 'f' rfl (by decide))
  next heq => exact absurd (List.cons.inj heq).1 (hne '"' rfl (by decide))
  next heq => exact absurd (List.cons.inj heq).1 (hne '[' rfl (by decide))
  next heq => exact absurd (List.cons.inj heq).1 (hne '\x7b' rfl (by decide))
  next => rfl

theorem readValue_int {n : Int} (h : IsWord n) (hrest : Delimited rest) :
    readValue ofSigns (fuel + 1) level (writeInt n ++ rest) = some (.int n, rest) := by
  rw [← readNumber_writeInt h hrest]
  unfold writeInt
  split
  next => exact readValue_number (Or.inr rfl)
  next =>
    obtain ⟨d, ds, hdigits, hd⟩ := head_toDigits n.natAbs
    rw [hdigits]
    exact readValue_number (Or.inl hd)

theorem length_writeInt_pos (n : Int) : 0 < (writeInt n).length := by
  have hpos := List.length_pos_iff.mpr (Nat.toDigits_ne_nil (n := n.natAbs) (b := 10))
  unfold writeInt
  split
  · exact Nat.succ_pos _
  · exact hpos

theorem writeString_append (s : String) :
    writeString s ++ rest = '"' :: (s.toList.flatMap writeChar ++ '"' :: rest) := by
  simp [writeString]

theorem readValue_str (s : String) :
    readValue ofSigns (fuel + 1) level (writeString s ++ rest) = some (.str s, rest) := by
  rw [writeString_append, readValue, skipSpace_of_not rfl]
  simp only [readString_written]
  rfl

theorem readValue_close {cs r : List Char} (h : skipSpace cs = ']' :: r) :
    readValue ofSigns fuel level cs = none := by
  cases fuel with
  | zero => rfl
  | succ fuel =>
    rw [readValue, h]
    rfl

theorem readElements_close {cs r : List Char} (h : skipSpace cs = ']' :: r) :
    readElements ofSigns fuel level cs = none := by
  cases fuel with
  | zero => rfl
  | succ fuel =>
    rw [readElements, readValue_close h]
    rfl

theorem readValue_arr {cs : List Char} {ds : List Doc}
    (h : readElements ofSigns fuel (level + 1) cs = some (ds, rest)) :
    readValue ofSigns (fuel + 1) level ('[' :: cs) = some (atDepth level (.arr ds), rest) := by
  rw [readValue, skipSpace_of_not rfl]
  simp only
  split
  next heq =>
    rw [readElements_close heq] at h
    cases h
  next => rw [h, Option.map_some]

theorem readMembers_close {cs r : List Char} (h : skipSpace cs = '\x7d' :: r) :
    readMembers ofSigns fuel level cs = none := by
  cases fuel with
  | zero => rfl
  | succ fuel =>
    rw [readMembers, h]
    rfl

theorem readValue_obj {cs : List Char} {ms : List (Option String × Doc)}
    (h : readMembers ofSigns fuel (level + 1) cs = some (ms, rest)) :
    readValue ofSigns (fuel + 1) level ('\x7b' :: cs) = some (atDepth level (closeObject ms), rest) := by
  rw [readValue, skipSpace_of_not rfl]
  simp only
  split
  next heq =>
    rw [readMembers_close heq] at h
    cases h
  next => rw [h, Option.map_some]

/-! ### Documents -/

/-- Wherever the value is laid out, it is read back from there, with fuel for two steps at each
character. -/
def IsReadBack (v : Json) : Prop :=
  ∀ fuel level depth rest, level + v.nesting ≤ maxDepth → 2 * (layOut depth v).length ≤ fuel →
    Delimited rest → readValue ofSigns fuel level (layOut depth v ++ rest) = some (Doc.ofValue v, rest)

theorem readElements_layOut {v : Json} {vs : List Json} (h : ∀ w ∈ v :: vs, IsReadBack w)
    (fuel level depth outer : Nat) (rest : List Char)
    (hlevel : level + nestingElements (v :: vs) ≤ maxDepth)
    (hfuel : 2 * (layOutElements depth (v :: vs)).length + 1 ≤ fuel) :
    readElements ofSigns fuel level
        (layOutElements depth (v :: vs) ++ (breakLine outer ++ ']' :: rest)) =
      some (Doc.ofElements (v :: vs), rest) := by
  induction vs generalizing v fuel with
  | nil =>
    obtain ⟨fuel, rfl⟩ : ∃ k, fuel = k + 1 := ⟨fuel - 1, by omega⟩
    have hv := h v List.mem_cons_self fuel level depth (breakLine outer ++ ']' :: rest)
      (by simpa [nestingElements] using hlevel) (by simpa [layOutElements] using hfuel)
      (delimited_breakLine outer)
    rw [readElements, layOutElements, hv]
    simp only [Option.bind_eq_bind, Option.bind_some, skipSpace_breakLine]
    rfl
  | cons w vs ih =>
    obtain ⟨fuel, rfl⟩ : ∃ k, fuel = k + 1 := ⟨fuel - 1, by omega⟩
    -- a comma follows the first value, and then the others are laid out by themselves
    have hlayout : layOutElements depth (v :: w :: vs) =
        layOut depth v ++ ',' :: (breakLine depth ++ layOutElements depth (w :: vs)) := by
      simp [layOutElements]
    rw [hlayout, List.length_append, List.length_cons, List.length_append] at hfuel
    rw [nestingElements] at hlevel
    have hv := h v List.mem_cons_self fuel level depth
      (',' :: (breakLine depth ++ (layOutElements depth (w :: vs) ++ (breakLine outer ++ ']' :: rest))))
      (by omega) (by omega) delimited_comma
    have hrest := ih (fun u hu => h u (List.mem_cons_of_mem _ hu)) fuel (by omega) (by omega)
    rw [hlayout, readElements]
    simp only [List.append_assoc, List.cons_append, hv, Option.bind_eq_bind, Option.bind_some,
      skipSpace_of_not (show isSpace ',' = false from rfl), readElements_breakLine, hrest]
    rfl

def keyed (ms : List (String × Doc)) : List (Option String × Doc) := ms.map fun m => (some m.1, m.2)

theorem closeObject_keyed (ms : List (String × Doc)) : closeObject (keyed ms) = .obj ms := by
  have hkeys : (keyed ms).mapM (fun m => m.1.map fun key => (key, m.2)) = some ms := by
    induction ms with
    | nil => rfl
    | cons m ms ih =>
      rw [keyed, List.map_cons, List.mapM_cons, ← keyed, ih]
      rfl
  rw [closeObject, hkeys]

section Member

variable {k : String} {d : Doc} {ms : List (Option String × Doc)} {cs after more : List Char}
  (h : readValue ofSigns fuel level cs = some (d, after))
include h

theorem readMembers_last (hafter : skipSpace after = '\x7d' :: rest) :
    readMembers ofSigns (fuel + 1) level (writeString k ++ ':' :: ' ' :: cs) =
      some ([(some k, d)], rest) := by
  rw [writeString_append, readMembers, skipSpace_of_not rfl]
  simp only [readString_written, Option.bind_eq_bind, Option.bind_some,
    skipSpace_of_not (show isSpace ':' = false from rfl), readValue_blank, h, hafter]
  rfl

theorem readMembers_more (hafter : skipSpace after = ',' :: more)
    (hmore : readMembers ofSigns fuel level more = some (ms, rest)) :
    readMembers ofSigns (fuel + 1) level (writeString k ++ ':' :: ' ' :: cs) =
      some ((some k, d) :: ms, rest) := by
  rw [writeString_append, readMembers, skipSpace_of_not rfl]
  simp only [readString_written, Option.bind_eq_bind, Option.bind_some,
    skipSpace_of_not (show isSpace ':' = false from rfl), readValue_blank, h, hafter, hmore]
  rfl

end Member

theorem readMembers_layOut {k : String} {v : Json} {ms : List (String × Json)}
    (h : ∀ m ∈ (k, v) :: ms, IsReadBack m.2) (fuel level depth outer : Nat) (rest : List Char)
    (hlevel : level + nestingMembers ((k, v) :: ms) ≤ maxDepth)
    (hfuel : 2 * (layOutMembers depth ((k, v) :: ms)).length ≤ fuel) :
    readMembers ofSigns fuel level
        (layOutMembers depth ((k, v) :: ms) ++ (breakLine outer ++ '\x7d' :: rest)) =
      some (keyed (Doc.ofMembers ((k, v) :: ms)), rest) := by
  induction ms generalizing k v fuel with
  | nil =>
    have hlayout : layOutMembers depth [(k, v)] = writeString k ++ ':' :: ' ' :: layOut depth v := by
      simp [layOutMembers]
    rw [hlayout, List.length_append, List.length_cons, List.length_cons] at hfuel
    rw [nestingMembers] at hlevel
    obtain ⟨fuel, rfl⟩ : ∃ k, fuel = k + 1 := ⟨fuel - 1, by omega⟩
    have hself : IsReadBack v := h (k, v) List.mem_cons_self
    have hv := hself fuel level depth (breakLine outer ++ '\x7d' :: rest)
      (by omega) (by omega) (delimited_breakLine outer)
    rw [hlayout, List.append_assoc, List.cons_append, List.cons_append]
    exact readMembers_last hv (skipSpace_breakLine outer)
  | cons m ms ih =>
    obtain ⟨l, w⟩ := m
    have hlayout : layOutMembers depth ((k, v) :: (l, w) :: ms) = writeString k ++ ':' :: ' ' ::
        (layOut depth v ++ ',' :: (breakLine depth ++ layOutMembers depth ((l, w) :: ms))) := by
      simp [layOutMembers]
    rw [hlayout, List.length_append, List.length_cons, List.length_cons, List.length_append,
      List.length_cons, List.length_append] at hfuel
    rw [nestingMembers] at hlevel
    obtain ⟨fuel, rfl⟩ : ∃ k, fuel = k + 1 := ⟨fuel - 1, by omega⟩
    have hself : IsReadBack v := h (k, v) List.mem_cons_self
    have hv := hself fuel level depth
      (',' :: (breakLine depth ++ (layOutMembers depth ((l, w) :: ms) ++
        (breakLine outer ++ '\x7d' :: rest)))) (by omega) (by omega) delimited_comma
    have hrest := ih (fun m hm => h m (List.mem_cons_of_mem _ hm)) fuel (by omega) (by omega)
    rw [hlayout]
    simp only [List.append_assoc, List.cons_append]
    exact readMembers_more hv (skipSpace_of_not rfl) ((readMembers_breakLine _ _).trans hrest)

theorem atDepth_of_nesting {d : Doc} {n : Nat} (h : level + (n + 1) ≤ maxDepth) :
    atDepth level d = d := if_pos (by omega)

mutual

theorem isReadBack : ∀ v : Json, v.Integral → IsReadBack v
  | .null, _ | .bool true, _ | .bool false, _ => by
    intro fuel level depth rest _ hfuel _
    obtain ⟨fuel, rfl⟩ : ∃ k, fuel = k + 1 := ⟨fuel - 1, by simp [layOut] at hfuel; omega⟩
    rfl
  | .int n, h => by
    intro fuel level depth rest _ hfuel hrest
    have hpos := length_writeInt_pos n
    rw [layOut] at hfuel ⊢
    obtain ⟨fuel, rfl⟩ : ∃ k, fuel = k + 1 := ⟨fuel - 1, by omega⟩
    exact readValue_int h hrest
  | .double d, h => h.elim
  | .str s, _ => by
    intro fuel level depth rest _ hfuel _
    obtain ⟨fuel, rfl⟩ : ∃ k, fuel = k + 1 :=
      ⟨fuel - 1, by simp [layOut, writeString] at hfuel; omega⟩
    rw [layOut]
    exact readValue_str s
  | .arr [], _ => by
    intro fuel level depth rest hlevel hfuel _
    obtain ⟨fuel, rfl⟩ : ∃ k, fuel = k + 1 := ⟨fuel - 1, by simp [layOut] at hfuel; omega⟩
    exact congrArg (fun d => some (d, rest)) (atDepth_of_nesting hlevel)
  | .arr (v :: vs), h => by
    intro fuel level depth rest hlevel hfuel _
    have hlayout : layOut depth (.arr (v :: vs)) = '[' :: (breakLine (depth + 1) ++
        (layOutElements (depth + 1) (v :: vs) ++ (breakLine depth ++ [']']))) := by
      simp [layOut]
    rw [hlayout, List.length_cons, List.length_append, List.length_append, List.length_append,
      List.length_singleton] at hfuel
    rw [nesting] at hlevel
    obtain ⟨fuel, rfl⟩ : ∃ k, fuel = k + 1 := ⟨fuel - 1, by omega⟩
    have hread := readElements_layOut (isReadBack_elements (v :: vs) h) fuel (level + 1) (depth + 1)
      depth rest (by omega) (by omega)
    rw [hlayout]
    simp only [List.append_assoc, List.cons_append, List.nil_append]
    rw [readValue_arr ((readElements_breakLine _ _).trans hread), atDepth_of_nesting hlevel]
    rfl
  | .obj [], _ => by
    intro fuel level depth rest hlevel hfuel _
    obtain ⟨fuel, rfl⟩ : ∃ k, fuel = k + 1 := ⟨fuel - 1, by simp [layOut] at hfuel; omega⟩
    exact congrArg (fun d => some (d, rest)) (atDepth_of_nesting hlevel)
  | .obj ((k, v) :: ms), h => by
    intro fuel level depth rest hlevel hfuel _
    have hlayout : layOut depth (.obj ((k, v) :: ms)) = '\x7b' :: (breakLine (depth + 1) ++
        (layOutMembers (depth + 1) ((k, v) :: ms) ++ (breakLine depth ++ ['\x7d']))) := by
      simp [layOut]
    rw [hlayout, List.length_cons, List.length_append, List.length_append, List.length_append,
      List.length_singleton] at hfuel
    rw [nesting] at hlevel
    obtain ⟨fuel, rfl⟩ : ∃ k, fuel = k + 1 := ⟨fuel - 1, by omega⟩
    have hread := readMembers_layOut (isReadBack_members ((k, v) :: ms) h) fuel (level + 1)
      (depth + 1) depth rest (by omega) (by omega)
    rw [hlayout]
    simp only [List.append_assoc, List.cons_append, List.nil_append]
    rw [readValue_obj ((readMembers_breakLine _ _).trans hread), closeObject_keyed,
      atDepth_of_nesting hlevel]
    rfl

theorem isReadBack_elements : ∀ vs : List Json, IntegralElements vs → ∀ v ∈ vs, IsReadBack v
  | [], _ => fun _ hv => absurd hv List.not_mem_nil
  | v :: vs, h => List.forall_mem_cons.mpr ⟨isReadBack v h.1, isReadBack_elements vs h.2⟩

theorem isReadBack_members : ∀ ms : List (String × Json), IntegralMembers ms →
    ∀ m ∈ ms, IsReadBack m.2
  | [], _ => fun _ hm => absurd hm List.not_mem_nil
  | (_, v) :: ms, h => List.forall_mem_cons.mpr ⟨isReadBack v h.1, isReadBack_members ms h.2⟩

end

theorem readText_pretty {v : Json} (h : v.Integral) (hdeep : v.nesting ≤ maxDepth) :
    readText (pretty v) = some (Doc.ofValue v) := by
  have hfuel := Text.length_le_utf8ByteSize (pretty v)
  rw [pretty, String.toList_ofList] at hfuel
  have hread := isReadBack v h (2 * (pretty v).utf8ByteSize + 2) 0 0 [] (by omega) (by rw [pretty]; omega)
    delimited_nil
  rw [List.append_nil] at hread
  rw [readText, readSource, pretty, String.toList_ofList, ← pretty, hread]
  rfl

end ClusterGate.Json
