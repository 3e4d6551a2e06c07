import Mathlib.Data.Nat.Notation
import Mathlib.Tactic.Common

/-!
# Routing of HTTP requests

The request multiplexer of Go's `net/http`: patterns with an optional method,
literal segments, wildcards for one segment, and subtrees. A path is given by its
unescaped segments, and a trailing slash by an empty last one. Paths are taken to
be clean: the multiplexer redirects the others before it looks at the patterns.

## Implementation notes

Of the patterns that match, the most specific one is chosen. A multiplexer lists
its patterns with the more specific ones first, so that this is the first match.
-/

namespace ServeMux

inductive Segment where
  | literal (text : String)
  | wildcard

structure Pattern where
  method : Option String
  segments : List Segment
  /-- The pattern ends in a slash, and matches what is below. -/
  subtree : Bool

/-- The values of the wildcards, if the path matches. A wildcard matches one
segment, which is not empty. -/
def capture (subtree : Bool) : List Segment → List String → Option (List String)
  | [], [] => if subtree then none else some []
  | [], _ :: _ => if subtree then some [] else none
  | _ :: _, [] => none
  | .literal text :: segments, part :: path =>
      if text = part then capture subtree segments path else none
  | .wildcard :: segments, part :: path =>
      if part = "" then none else (capture subtree segments path).map (part :: ·)

/-- A pattern of literal segments. -/
def exactly (method : String) (path : List String) : Pattern :=
  ⟨some method, path.map .literal, false⟩

/-- A pattern for `GET` is one for `HEAD` too. -/
def Pattern.allows (p : Pattern) (method : String) : Bool :=
  match p.method with
  | none => true
  | some m => m = method || (m = "GET" && method = "HEAD")

/-- The values of the wildcards, if the method and the path match. -/
def Pattern.captured (p : Pattern) (method : String) (path : List String) :
    Option (List String) :=
  if p.allows method then capture p.subtree p.segments path else none

/-- Literal segments are matched by their texts, and what is left of the path by
what is left of the pattern. -/
theorem exists_of_capture_append {texts path values : List String} {segments : List Segment}
    {subtree : Bool} (h : capture subtree (texts.map .literal ++ segments) path = some values) :
    ∃ rest, path = texts ++ rest ∧ capture subtree segments rest = some values := by
  induction texts generalizing path with
  | nil => exact ⟨path, rfl, h⟩
  | cons text texts ih =>
      cases path with
      | nil => exact absurd h (by simp [capture])
      | cons part path =>
          simp only [List.map_cons, List.cons_append, capture] at h
          split at h
          · rename_i htext
            obtain ⟨rest, hpath, hrest⟩ := ih h
            exact ⟨rest, by rw [htext, hpath, List.cons_append], hrest⟩
          · exact absurd h (by simp)

theorem capture_literals {texts path values : List String}
    (h : capture false (texts.map .literal) path = some values) : path = texts := by
  rw [← List.append_nil (texts.map _)] at h
  obtain ⟨rest, rfl, hrest⟩ := exists_of_capture_append h
  cases rest with
  | nil => exact List.append_nil texts
  | cons part rest => exact absurd hrest (by simp [capture])

theorem capture_literals_wildcard {texts path values : List String}
    (h : capture false (texts.map .literal ++ [.wildcard]) path = some values) :
    ∃ part, path = texts ++ [part] := by
  obtain ⟨rest, rfl, hrest⟩ := exists_of_capture_append h
  cases rest with
  | nil => exact absurd hrest (by simp [capture])
  | cons part rest =>
      cases rest with
      | nil => exact ⟨part, rfl⟩
      | cons part' rest =>
          simp only [capture] at hrest
          split at hrest
          · exact absurd hrest (by simp)
          · exact absurd hrest (by simp)

theorem eq_of_allows {p : Pattern} {m method : String} (hp : p.method = some m)
    (hget : m ≠ "GET") (h : p.allows method = true) : method = m := by
  simp only [Pattern.allows, hp, Bool.or_eq_true, Bool.and_eq_true, decide_eq_true_eq] at h
  rcases h with h | ⟨h, -⟩
  · exact h.symm
  · exact absurd h hget

/-- A pattern that ends in a slash matches the path itself, not one below it. -/
def Pattern.exact (p : Pattern) (path : List String) : Bool :=
  !p.subtree || (path.length = p.segments.length + 1 && path.getLast? = some "")

/-- The patterns, the more specific ones first, and what they stand for. -/
abbrev Mux (α : Type) := List (Pattern × α)

/-- What becomes of a request. -/
inductive Target (α : Type) where
  | handler (value : α) (captured : List String)
  | moved
  | methodNotAllowed
  | notFound

namespace Mux

variable {α : Type}

def find (mux : Mux α) (method : String) (path : List String) :
    Option (Pattern × α × List String) :=
  mux.findSome? fun e => (e.1.captured method path).map fun values => (e.1, e.2, values)

/-- The path is that of a subtree but for its slash, and nothing else matches it
exactly. -/
def redirects (mux : Mux α) (method : String) (path : List String) : Bool :=
  path.getLast? ≠ some "" &&
    !((mux.find method path).any fun e => e.1.exact path) &&
    (mux.find method (path ++ [""])).any fun e => e.1.exact (path ++ [""])

/-- The path matches whatever the method is. -/
def knows (mux : Mux α) (path : List String) : Bool :=
  mux.any fun e => (capture e.1.subtree e.1.segments path).isSome

def route (mux : Mux α) (method : String) (path : List String) : Target α :=
  if mux.redirects method path then .moved
  else
    match mux.find method path with
    | some (_, value, values) => .handler value values
    | none =>
        if mux.knows path || mux.knows (path ++ [""]) then .methodNotAllowed else .notFound

variable {mux : Mux α} {method : String} {path values : List String} {value : α}

/-- A handler is reached by a pattern that matches. -/
theorem exists_of_route (h : mux.route method path = .handler value values) :
    ∃ p, (p, value) ∈ mux ∧ p.allows method = true ∧
      capture p.subtree p.segments path = some values := by
  unfold route at h
  split at h
  · exact absurd h (by simp)
  · split at h
    · rename_i p v vs hfind
      obtain ⟨rfl, rfl⟩ := Target.handler.inj h
      obtain ⟨⟨q, w⟩, hmem, hq⟩ := List.exists_of_findSome?_eq_some hfind
      obtain ⟨vs', hcaptured, heq⟩ := Option.map_eq_some_iff.mp hq
      obtain ⟨rfl, rfl, rfl⟩ := heq
      unfold Pattern.captured at hcaptured
      split at hcaptured
      · rename_i hallows
        exact ⟨q, hmem, hallows, hcaptured⟩
      · exact absurd hcaptured (by simp)
    · split at h
      · exact absurd h (by simp)
      · exact absurd h (by simp)

end Mux

end ServeMux
