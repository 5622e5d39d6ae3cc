import ClusterGate.Cli.Command
import ClusterGate.Proofs.Text.Word
import Mathlib.Data.List.TakeWhile

/-!
# Command lines of upgrades

An option that takes a value has it attached behind an equals sign or as the argument behind it. Main
statement: `parse_upgrade`, how an upgrade with both its settings is asked for.
-/

namespace ClusterGate.Cli

/-- The arguments that give an option a value. What looks like an option has to be attached. -/
inductive Spells (name value : String) : List String → Prop where
  | attached : Spells name value ["--" ++ name ++ "=" ++ value]
  | apart (plain : Grammar.isOptionLike value = false) : Spells name value ["--" ++ name, value]

/-- The command lines that ask for an upgrade under these settings. -/
inductive AsksUpgrade (s : Settings) (old new : String) : List String → Prop where
  | line {dir secs source target : List String} (dirSpelled : Spells "catalog-dir" s.catalogDir dir)
      (secsSpelled : Spells "timeout-secs" (toString s.timeoutSeconds) secs)
      (oldSpelled : Spells "from" old source) (newSpelled : Spells "to" new target) :
      AsksUpgrade s old new (dir ++ secs ++ "upgrade" :: (source ++ target))

namespace Grammar

variable {g : Grammar} {found : Given} {rule : OptionRule} {kind : ValueKind} {name value : String}
  {rest given : List String}

theorem splitLong_attached (h : name.toList.all (· ≠ '=') = true) :
    splitLong (name.toList ++ '=' :: value.toList) = (name, some value) := by
  have hname := List.all_eq_true.mp h
  simp only [splitLong, List.takeWhile_append_of_pos hname, List.dropWhile_append_of_pos hname,
    List.takeWhile_cons, List.dropWhile_cons, ne_eq, not_true_eq_false, decide_false,
    Bool.false_eq_true, if_false, List.append_nil, String.ofList_toList]

theorem splitLong_apart (h : name.toList.all (· ≠ '=') = true) :
    splitLong name.toList = (name, none) := by
  have hname := List.all_eq_true.mp h
  have htake := List.takeWhile_eq_self_iff.mpr hname
  have hdrop := List.dropWhile_eq_nil_iff.mpr hname
  simp only [splitLong, htake, hdrop, String.ofList_toList]

/-- An option that is not given yet takes the value that it is given in either way. -/
theorem read_option (hunmarked : name.toList.all (· ≠ '=') = true)
    (hown : name ≠ "" ∧ name ≠ "help" ∧ name ≠ "version") (hrule : g.option? name = some rule)
    (hkind : rule.value = some kind) (hadmits : kind.admits value = true)
    (hfresh : found.has rule.name = false) (hspelled : Spells name value given) :
    g.read found (given ++ rest) =
      g.read { found with options := found.options ++ [(rule.name, value)] } rest := by
  obtain ⟨hne, hhelp, hversion⟩ := hown
  have htaken : takeOption found rule value =
      .ok { found with options := found.options ++ [(rule.name, value)] } := by
    simp only [takeOption, hkind, hadmits, hfresh, Bool.not_false, Bool.or_true, Bool.and_true,
      if_true]
  cases hspelled with
  | attached =>
    have hlong : ("--" ++ name ++ "=" ++ value).toList =
        '-' :: '-' :: (name.toList ++ '=' :: value.toList) := by simp
    obtain ⟨c, cs, hcs⟩ := List.exists_cons_of_ne_nil
      (l := name.toList ++ '=' :: value.toList) (by simp)
    have hsplit : splitLong (name.toList ++ '=' :: value.toList) = (name, some value) :=
      splitLong_attached hunmarked
    rw [hcs] at hlong hsplit
    rw [List.singleton_append, read, hlong]
    simp only [hsplit, hhelp, hversion, false_and, if_false, hrule, hkind, htaken]
    rfl
  | apart plain =>
    have hlong : ("--" ++ name).toList = '-' :: '-' :: name.toList := by simp
    obtain ⟨c, cs, hcs⟩ := List.exists_cons_of_ne_nil (l := name.toList) (by simpa using hne)
    have hsplit := splitLong_apart hunmarked
    rw [hcs] at hlong hsplit
    rw [List.cons_append, List.singleton_append, read, hlong]
    simp only [hsplit, hhelp, hversion, false_and, if_false, hrule, hkind, plain,
      Bool.false_eq_true, htaken]
    rfl

end Grammar

open Grammar

variable {s : Settings} {old new : String} {args rest dir secs source target : List String}

/-- What is given to the program itself when an upgrade is asked for. -/
def givenAbove (s : Settings) (below : List String) : Given where
  options := [("catalog-dir", s.catalogDir), ("timeout-secs", toString s.timeoutSeconds)]
  command := some ("upgrade", below)

def givenNames (old new : String) : Given where
  options := [("from", old), ("to", new)]

theorem read_above (hdir : Spells "catalog-dir" s.catalogDir dir)
    (hsecs : Spells "timeout-secs" (toString s.timeoutSeconds) secs) (hpath : s.catalogDir ≠ "")
    (hword : Text.word? (toString s.timeoutSeconds) = some s.timeoutSeconds) :
    readLevel topGrammar (dir ++ secs ++ "upgrade" :: rest) = .ok (givenAbove s rest) := by
  have hdirRule :
      topGrammar.option? "catalog-dir" = some ⟨"catalog-dir", none, some .path, false⟩ := rfl
  have hsecsRule :
      topGrammar.option? "timeout-secs" = some ⟨"timeout-secs", none, some .number, false⟩ := rfl
  have hadmits : ValueKind.path.admits s.catalogDir = true := decide_eq_true hpath
  have hnumber : ValueKind.number.admits (toString s.timeoutSeconds) = true := by
    rw [ValueKind.admits, hword, Option.isSome_some]
  rw [readLevel, List.append_assoc,
    read_option (by decide) (by decide) hdirRule rfl hadmits rfl hdir,
    read_option (by decide) (by decide) hsecsRule rfl hnumber rfl hsecs]
  rfl

theorem read_names (hold : Spells "from" old source) (hnew : Spells "to" new target) :
    readLevel upgradeGrammar (source ++ target) = .ok (givenNames old new) := by
  have holdRule : upgradeGrammar.option? "from" = some ⟨"from", none, some .text, false⟩ := rfl
  have hnewRule : upgradeGrammar.option? "to" = some ⟨"to", none, some .text, false⟩ := rfl
  rw [readLevel, ← List.append_nil target,
    read_option (by decide) (by decide) holdRule rfl rfl rfl hold,
    read_option (by decide) (by decide) hnewRule rfl rfl rfl hnew]
  rfl

theorem readLine_upgrade (hdir : Spells "catalog-dir" s.catalogDir dir)
    (hsecs : Spells "timeout-secs" (toString s.timeoutSeconds) secs)
    (hold : Spells "from" old source) (hnew : Spells "to" new target) (hpath : s.catalogDir ≠ "")
    (hword : Text.word? (toString s.timeoutSeconds) = some s.timeoutSeconds) :
    readLine (dir ++ secs ++ "upgrade" :: (source ++ target)) = .ok
      ⟨[(topGrammar, givenAbove s (source ++ target)), (upgradeGrammar, givenNames old new)],
        some (.upgrade old new)⟩ := by
  rw [readLine, read_above hdir hsecs hpath hword]
  change readLeaf upgradeGrammar (source ++ target) _ _ = _
  rw [readLeaf, read_names hold hnew]
  rfl

/-- The variable has to be a path even where the option stands in its way. -/
theorem settings_upgrade {env : Inventory.Environment} {below : List String}
    (henv : env.get? catalogVariable ≠ some "")
    (hword : Text.word? (toString s.timeoutSeconds) = some s.timeoutSeconds) :
    settings env [(topGrammar, givenAbove s below), (upgradeGrammar, givenNames old new)] =
      .ok s := by
  have hseconds : lastValue? [(topGrammar, givenAbove s below), (upgradeGrammar, givenNames old new)]
      "timeout-secs" = some (toString s.timeoutSeconds) := rfl
  have hdir : lastValue? [(topGrammar, givenAbove s below), (upgradeGrammar, givenNames old new)]
      "catalog-dir" = some s.catalogDir := rfl
  simp only [settings, hseconds, hdir, Option.bind_some, hword, Option.getD_some]
  cases hvariable : env.get? catalogVariable with
  | none => rfl
  | some path =>
    have hpath : ValueKind.path.admits path = true := by
      rw [hvariable] at henv
      exact decide_eq_true fun h => henv (congrArg some h)
    simp only [hpath, Bool.true_or]
    rfl

/-- What asks for an upgrade is understood so, whatever the names are. -/
theorem parse_upgrade {env : Inventory.Environment} (h : AsksUpgrade s old new args)
    (henv : env.get? catalogVariable ≠ some "") (hpath : s.catalogDir ≠ "")
    (hseconds : s.timeoutSeconds ≤ Text.maxWord) : parse env args = .ok (s, .upgrade old new) := by
  have hword := Text.word?_toString hseconds
  obtain ⟨hdir, hsecs, hold, hnew⟩ := h
  rw [parse, readLine_upgrade hdir hsecs hold hnew hpath hword]
  change settings env _ >>= _ = _
  rw [settings_upgrade henv hword]
  rfl

end ClusterGate.Cli
