import ClusterGate.Telemetry.Event
import Mathlib.Data.List.Basic

/-!
# What notes make of a ledger

A counter grows by what the notes add to it, and the events are those of the notes in their order.
Main statements: `Ledger.get_notes`, `Ledger.entries_notes`.
-/

namespace ClusterGate

def Note.adds (counter : Counter) : Note → Nat
  | .count c n => if c = counter then n else 0
  | .emit _ => 0

def Note.total (counter : Counter) : List Note → Nat
  | [] => 0
  | n :: rest => n.adds counter + total counter rest

theorem Note.total_append (counter : Counter) (ns ms : List Note) :
    total counter (ns ++ ms) = total counter ns + total counter ms := by
  induction ns with
  | nil => exact (Nat.zero_add _).symm
  | cons n rest ih => rw [List.cons_append, total, ih, total, Nat.add_assoc]

theorem Note.total_perm {counter : Counter} {ns ms : List Note} (h : ns.Perm ms) :
    total counter ns = total counter ms := by
  induction h with
  | nil => rfl
  | cons n _ ih => rw [total, total, ih]
  | swap n m rest =>
    simp only [total]
    omega
  | trans _ _ ih ih' => exact ih.trans ih'

def Note.event? : Note → Option Event
  | .count .. => none
  | .emit event => some event

theorem Tally.get_add (t : Tally) (n : Nat) (c counter : Counter) :
    (t.add n c).get counter = t.get counter + UInt64.ofNat ((Note.count c n).adds counter) := by
  by_cases h : c = counter
  · rw [Note.adds, if_pos h, h]
    cases counter <;> rfl
  · rw [Note.adds, if_neg h]
    have hsame : (t.add n c).get counter = t.get counter := by
      cases c <;> cases counter <;> first | rfl | exact absurd rfl h
    rw [hsame]
    exact (UInt64.add_zero _).symm

namespace Ledger

variable {l : Ledger} {counter : Counter}

theorem get_note (l : Ledger) (n : Note) :
    (l.note n).tally.get counter = l.tally.get counter + UInt64.ofNat (n.adds counter) := by
  cases n with
  | count c k => exact l.tally.get_add k c counter
  | emit event => exact (UInt64.add_zero _).symm

theorem get_notes (l : Ledger) (ns : List Note) :
    (l.notes ns).tally.get counter =
      l.tally.get counter + UInt64.ofNat (Note.total counter ns) := by
  induction ns generalizing l with
  | nil => exact (UInt64.add_zero _).symm
  | cons n rest ih =>
    rw [notes, List.foldl_cons, ← notes, ih, get_note, Note.total, UInt64.ofNat_add,
      UInt64.add_assoc]

theorem spans_note (l : Ledger) (n : Note) : (l.note n).spans = l.spans := by
  cases n <;> rfl

theorem entries_note (l : Ledger) (n : Note) :
    (l.note n).entries = l.entries ++ (n.event?.map fun event => ⟨event, l.spans.reverse⟩).toList := by
  cases n with
  | count => exact (List.append_nil _).symm
  | emit => rfl

theorem entries_notes (l : Ledger) (ns : List Note) :
    (l.notes ns).entries =
      l.entries ++ (ns.filterMap Note.event?).map fun event => ⟨event, l.spans.reverse⟩ := by
  induction ns generalizing l with
  | nil => exact (List.append_nil _).symm
  | cons n rest ih =>
    rw [notes, List.foldl_cons, ← notes, ih, spans_note, entries_note, List.append_assoc]
    cases hn : n.event? with
    | none => rw [List.filterMap_cons_none hn]; rfl
    | some event => rw [List.filterMap_cons_some hn]; rfl

end Ledger

end ClusterGate
