import ClusterGate.Json.Pointer

/-!
# Tokens of pointers

Escaping loses nothing and leaves no slash, so that a pointer pushed below a token is read as the
token and then the pointer. For the same reason one escaped token begins another exactly if the
tokens do, and a pointer through a token begins only pointers through that token.
-/

namespace ClusterGate

namespace Text

theorem pieces_append {mark : Char} {piece : List Char} (h : mark ∉ piece) (rest : List Char) :
    pieces mark (piece ++ mark :: rest) = piece :: pieces mark rest := by
  induction piece with
  | nil => simp [pieces]
  | cons c piece ih =>
    simp only [List.mem_cons, not_or] at h
    obtain ⟨hc, hp⟩ := h
    rw [List.cons_append, pieces, if_neg (Ne.symm hc), ih hp]

theorem pieces_of_not_mem {mark : Char} {piece : List Char} (h : mark ∉ piece) :
    pieces mark piece = [piece] := by
  induction piece with
  | nil => rfl
  | cons c piece ih =>
    simp only [List.mem_cons, not_or] at h
    obtain ⟨hc, hp⟩ := h
    rw [pieces, if_neg (Ne.symm hc), ih hp]

end Text

namespace Pointer

theorem unescapeChars_escapeChars_append (cs rest : List Char) :
    unescapeChars (escapeChars cs ++ rest) = (unescapeChars rest).map (cs ++ ·) := by
  fun_induction escapeChars cs with
  | case1 => simp
  | case2 cs ih => simp [unescapeChars, ih, Function.comp_def]
  | case3 cs ih => simp [unescapeChars, ih, Function.comp_def]
  | case4 c cs hTilde hSlash ih =>
    have hc : c ≠ '~' := fun h => hTilde h
    rw [List.cons_append, unescapeChars.eq_4 c _ (fun _ h => absurd h hc) (fun _ h => absurd h hc),
      if_neg hc, ih, Option.map_map]
    rfl

theorem unescapeChars_escapeChars (cs : List Char) : unescapeChars (escapeChars cs) = some cs := by
  have h := unescapeChars_escapeChars_append cs []
  simpa [unescapeChars] using h

theorem slash_not_mem_escapeChars (cs : List Char) : '/' ∉ escapeChars cs := by
  fun_induction escapeChars cs with
  | case1 => simp
  | case2 rest ih => simpa using ih
  | case3 rest ih => simpa using ih
  | case4 c rest hTilde hSlash ih =>
    simp only [List.mem_cons, not_or]
    exact ⟨fun h => hSlash h.symm, ih⟩

theorem toList_push (path token : String) :
    (push path token).toList = path.toList ++ '/' :: escapeChars token.toList := by
  simp [push, escape]

theorem tokens?_empty : tokens? "" = some [] := rfl

/-- A pointer below a token reads as the token and then the pointer. -/
theorem tokens?_push_append {path : String} {tokens : List String} (token : String)
    (h : tokens? path = some tokens) :
    tokens? (push "" token ++ path) = some (token :: tokens) := by
  have hslash := slash_not_mem_escapeChars token.toList
  have hread : (unescapeChars (escapeChars token.toList)).map String.ofList = some token := by
    rw [unescapeChars_escapeChars]
    simp
  have hlist :
      (push "" token ++ path).toList = '/' :: (escapeChars token.toList ++ path.toList) := by
    rw [String.toList_append, toList_push]
    rfl
  unfold tokens? at h ⊢
  rw [hlist]
  split at h
  · rename_i hnil
    obtain rfl : tokens = [] := (Option.some.inj h).symm
    simp [hnil, Text.pieces_of_not_mem hslash, hread]
  · rename_i rest hcons
    simp [hcons, Text.pieces_append hslash, hread, h]
  · simp at h

theorem tokens?_push_root (token : String) : tokens? (push "" token) = some [token] := by
  have h := tokens?_push_append token tokens?_empty
  simpa using h

theorem push_append (above path token : String) :
    push (above ++ path) token = above ++ push path token := by
  simp [push, String.append_assoc]

theorem foldl_push (path : String) (tokens : List String) :
    tokens.foldl push path = path ++ ofTokens tokens := by
  induction tokens generalizing path with
  | nil => simp [ofTokens]
  | cons token tokens ih =>
    have hpush : push path token = path ++ push "" token := by
      rw [← push_append, String.append_empty]
    rw [ofTokens, List.foldl_cons, List.foldl_cons, ih, ih (push "" token), hpush,
      String.append_assoc]

theorem ofTokens_cons (token : String) (tokens : List String) :
    ofTokens (token :: tokens) = push "" token ++ ofTokens tokens :=
  foldl_push (push "" token) tokens

theorem ofTokens_singleton (token : String) : ofTokens [token] = push "" token := rfl

/-! ### Which pointer begins another -/

/-- Nothing, or one token and whatever follows it. -/
def StartsAtSlash (cs : List Char) : Prop := ∀ c ∈ cs.head?, c = '/'

theorem startsAtSlash_of_isPointer {path : String} (h : isPointer path = true) :
    StartsAtSlash path.toList := by
  unfold isPointer tokens? at h
  split at h
  · rename_i hnil
    simp [StartsAtSlash, hnil]
  · rename_i rest hcons
    simp [StartsAtSlash, hcons]
  · simp at h

theorem escapeChars_append (cs ds : List Char) :
    escapeChars (cs ++ ds) = escapeChars cs ++ escapeChars ds := by
  fun_induction escapeChars cs with
  | case1 => rfl
  | case2 cs ih => simp [escapeChars, ih]
  | case3 cs ih => simp [escapeChars, ih]
  | case4 c cs hTilde hSlash ih =>
    rw [List.cons_append, escapeChars.eq_4 c _ hTilde hSlash, ih, List.cons_append]

theorem escapeChars_prefix_iff {cs ds : List Char} :
    escapeChars cs <+: escapeChars ds ↔ cs <+: ds := by
  constructor
  · rintro ⟨rest, hrest⟩
    have hread := unescapeChars_escapeChars ds
    rw [← hrest, unescapeChars_escapeChars_append] at hread
    obtain ⟨tail, -, htail⟩ := Option.map_eq_some_iff.mp hread
    exact ⟨tail, htail⟩
  · rintro ⟨rest, rfl⟩
    exact ⟨escapeChars rest, (escapeChars_append cs rest).symm⟩

theorem escapeChars_inj {cs ds : List Char} : escapeChars cs = escapeChars ds ↔ cs = ds := by
  constructor
  · intro h
    have hread := unescapeChars_escapeChars cs
    rw [h, unescapeChars_escapeChars] at hread
    exact (Option.some.inj hread).symm
  · exact congrArg escapeChars

/-- Without a slash, a beginning ends inside the first piece. -/
theorem prefix_append_iff {cs ds rest : List Char} (hcs : '/' ∉ cs) (hrest : StartsAtSlash rest) :
    cs <+: ds ++ rest ↔ cs <+: ds := by
  induction cs generalizing ds with
  | nil => simp
  | cons c cs ih =>
    simp only [List.mem_cons, not_or] at hcs
    obtain ⟨hc, hcs⟩ := hcs
    cases ds with
    | nil =>
      cases rest with
      | nil => rfl
      | cons r rest =>
        obtain rfl : r = '/' := hrest r rfl
        simp [Ne.symm hc]
    | cons d ds => rw [List.cons_append, List.cons_prefix_cons, List.cons_prefix_cons, ih hcs]

/-- A beginning that goes on behind a slash has the whole first piece. -/
theorem append_slash_prefix_iff {cs ds more rest : List Char} (hcs : '/' ∉ cs) (hds : '/' ∉ ds)
    (hrest : StartsAtSlash rest) :
    cs ++ '/' :: more <+: ds ++ rest ↔ cs = ds ∧ '/' :: more <+: rest := by
  induction cs generalizing ds with
  | nil =>
    cases ds with
    | nil => simp
    | cons d ds =>
      simp only [List.mem_cons, not_or] at hds
      simp [hds.1]
  | cons c cs ih =>
    simp only [List.mem_cons, not_or] at hcs
    obtain ⟨hc, hcs⟩ := hcs
    cases ds with
    | nil =>
      cases rest with
      | nil => simp
      | cons r rest =>
        obtain rfl : r = '/' := hrest r rfl
        simp [Ne.symm hc]
    | cons d ds =>
      simp only [List.mem_cons, not_or] at hds
      rw [List.cons_append, List.cons_append, List.cons_prefix_cons, ih hcs hds.2, List.cons.injEq,
        and_assoc]

theorem push_prefix_iff {start key path : String} (hpath : isPointer path = true) :
    (push "" start).toList <+: (push "" key ++ path).toList ↔ start.toList <+: key.toList := by
  rw [String.toList_append, toList_push, toList_push, String.toList_empty, List.nil_append,
    List.nil_append, List.cons_append, List.cons_prefix_cons,
    prefix_append_iff (slash_not_mem_escapeChars _) (startsAtSlash_of_isPointer hpath),
    escapeChars_prefix_iff]
  exact and_iff_right rfl

theorem push_append_prefix_iff {token key first path : String} {tokens : List String}
    (hpath : isPointer path = true) :
    (push "" token ++ ofTokens (first :: tokens)).toList <+: (push "" key ++ path).toList ↔
      token = key ∧ (ofTokens (first :: tokens)).toList <+: path.toList := by
  obtain ⟨more, hmore⟩ : ∃ more, (ofTokens (first :: tokens)).toList = '/' :: more := by
    rw [ofTokens_cons, String.toList_append, toList_push]
    exact ⟨_, rfl⟩
  rw [String.toList_append, String.toList_append, toList_push, toList_push, hmore,
    String.toList_empty, List.nil_append, List.nil_append, List.cons_append, List.cons_append,
    List.cons_prefix_cons, append_slash_prefix_iff (slash_not_mem_escapeChars _)
    (slash_not_mem_escapeChars _) (startsAtSlash_of_isPointer hpath), escapeChars_inj,
    String.toList_inj]
  exact and_iff_right rfl

end Pointer

end ClusterGate
