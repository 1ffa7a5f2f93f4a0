import TabletopDice.Notation.Reader
import TabletopDice.Proofs.Notation.ActionWords
import TabletopDice.Proofs.Notation.Lexing

/-!
# The grammar of requests

Dice and groups come first, then actions, then perhaps the word `count`.  The words for dice and for
actions are taken as given.
-/

namespace TabletopDice.Notation

open List (Forall₂)

section Grammar

variable (rolls : Text → Request → Prop) (action : Text → Action → Prop)

/-- A dice by itself, or a group with an identifier, a dice and actions of its own.  The identifier
of a request is always a valid one. -/
inductive WritesRequest : List Lexeme → Request → Prop where
  | plain {word : Text} {r : Request} (hrolls : rolls word r) (hidentifier : r.identifier = none)
      (hactions : r.actions = []) : WritesRequest [.word word] r
  | group {name word : Text} {words : List Text} {r : Request} (hrolls : rolls word r)
      (hidentifier : r.identifier = some name) (hactions : Forall₂ action words r.actions) :
      WritesRequest (.opening :: .word name :: .word word :: words.map .word ++ [.closing]) r

/-- The requests of either kind are in the order in which they are written, and so are the actions.
There may be no requests yet. -/
inductive WritesPlan (lexemes : List Lexeme) (p : Plan) : Prop where
  | intro (parts : List (List Lexeme)) (words : List Text) (requests : List Request)
      (hlexemes : lexemes =
        parts.flatten ++ words.map .word ++ if p.counts then [.word countWord] else [])
      (hrequests : Forall₂ (WritesRequest rolls action) parts requests)
      (hactions : Forall₂ action words p.actions)
      (hnumeric : p.numeric = requests.filter (·.kind = .numeric))
      (hfudge : p.fudge = requests.filter (·.kind = .fudge))

end Grammar

/-! ## Longer and longer texts -/

section Extension

variable {rolls : Text → Request → Prop} {action : Text → Action → Prop}
  {lexemes part : List Lexeme} {p : Plan}

theorem writesPlan_empty : WritesPlan rolls action [] Plan.empty :=
  .intro [] [] [] rfl .nil .nil rfl rfl

theorem numeric_addRequest (p : Plan) (r : Request) :
    (p.addRequest r).numeric = p.numeric ++ [r].filter (·.kind = .numeric) := by
  cases hkind : r.kind <;> simp [Plan.addRequest, hkind]

theorem fudge_addRequest (p : Plan) (r : Request) :
    (p.addRequest r).fudge = p.fudge ++ [r].filter (·.kind = .fudge) := by
  cases hkind : r.kind <;> simp [Plan.addRequest, hkind]

theorem actions_addRequest (p : Plan) (r : Request) : (p.addRequest r).actions = p.actions := by
  cases hkind : r.kind <;> simp [Plan.addRequest, hkind]

theorem counts_addRequest (p : Plan) (r : Request) : (p.addRequest r).counts = p.counts := by
  cases hkind : r.kind <;> simp [Plan.addRequest, hkind]

theorem WritesPlan.addRequest {r : Request} (h : WritesPlan rolls action lexemes p)
    (hactions : p.actions = []) (hcounts : ¬p.counts)
    (hr : WritesRequest rolls action part r) :
    WritesPlan rolls action (lexemes ++ part) (p.addRequest r) := by
  obtain ⟨parts, words, requests, rfl, hrequests, hwords, hnumeric, hfudge⟩ := h
  rw [hactions, List.forall₂_nil_right_iff] at hwords
  subst hwords
  refine .intro (parts ++ [part]) [] (requests ++ [r]) ?_ ?_ ?_ ?_ ?_
  · simp [counts_addRequest, hcounts]
  · exact List.rel_append hrequests (.cons hr .nil)
  · simp [actions_addRequest, hactions]
  · rw [numeric_addRequest, hnumeric, List.filter_append]
  · rw [fudge_addRequest, hfudge, List.filter_append]

theorem WritesPlan.addAction {word : Text} {a : Action} (h : WritesPlan rolls action lexemes p)
    (hcounts : ¬p.counts) (ha : action word a) :
    WritesPlan rolls action (lexemes ++ [.word word]) (p.addAction a) := by
  obtain ⟨parts, words, requests, rfl, hrequests, hwords, hnumeric, hfudge⟩ := h
  refine .intro parts (words ++ [word]) requests ?_ hrequests ?_ hnumeric hfudge
  · simp [Plan.addAction, hcounts]
  · exact List.rel_append hwords (.cons ha .nil)

theorem WritesPlan.count (h : WritesPlan rolls action lexemes p) (hcounts : ¬p.counts) :
    WritesPlan rolls action (lexemes ++ [.word countWord]) { p with counts := true } := by
  obtain ⟨parts, words, requests, rfl, hrequests, hwords, hnumeric, hfudge⟩ := h
  refine .intro parts words requests ?_ hrequests hwords hnumeric hfudge
  simp [hcounts]

theorem WritesPlan.kind_eq (h : WritesPlan rolls action lexemes p) :
    (∀ q ∈ p.numeric, q.kind = .numeric) ∧ ∀ q ∈ p.fudge, q.kind = .fudge := by
  obtain ⟨_, _, requests, _, _, _, hnumeric, hfudge⟩ := h
  constructor
  · intro q hq
    rw [hnumeric] at hq
    simpa using (List.mem_filter.1 hq).2
  · intro q hq
    rw [hfudge] at hq
    simpa using (List.mem_filter.1 hq).2

end Extension

section Weakening

variable {rolls rolls' : Text → Request → Prop} {action action' : Text → Action → Prop}
  {lexemes : List Lexeme}

theorem WritesRequest.imp {r : Request} (h : WritesRequest rolls action lexemes r)
    (hrolls : ∀ word q, .word word ∈ lexemes → rolls word q → rolls' word q)
    (hactions : ∀ word a, .word word ∈ lexemes → action word a → action' word a) :
    WritesRequest rolls' action' lexemes r := by
  cases h with
  | plain hr hidentifier hnil => exact .plain (hrolls _ _ (by simp) hr) hidentifier hnil
  | group hr hidentifier hown =>
      refine .group (hrolls _ _ (by simp) hr) hidentifier (related_imp hown ?_)
      exact fun word hword a _ ↦ hactions word a (by simp [hword])

/-- What dice words and action words are matters for the words of the text only. -/
theorem WritesPlan.imp {p : Plan} (h : WritesPlan rolls action lexemes p)
    (hrolls : ∀ word q, .word word ∈ lexemes → rolls word q → rolls' word q)
    (hactions : ∀ word a, .word word ∈ lexemes → action word a → action' word a) :
    WritesPlan rolls' action' lexemes p := by
  obtain ⟨parts, words, requests, rfl, hrequests, hwords, hnumeric, hfudge⟩ := h
  refine .intro parts words requests rfl (related_imp hrequests ?_) (related_imp hwords ?_)
    hnumeric hfudge
  · intro part hpart r _ hr
    have hmem (word : Text) (hword : .word word ∈ part) : .word word ∈ parts.flatten :=
      List.mem_flatten.2 ⟨part, hpart, hword⟩
    exact hr.imp (fun word q hword ↦ hrolls word q (by simp [hmem word hword]))
      fun word a hword ↦ hactions word a (by simp [hmem word hword])
  · exact fun word hword a _ ↦ hactions word a (by simp [hword])

end Weakening

end TabletopDice.Notation
