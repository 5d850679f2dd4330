/-
# The tool catalogue

What the agent is allowed to look at (`agents/tools.py`): the names of the tools, the
parameters they declare, and the dispatcher that drops every argument that is not declared
and binds the organization from the caller.

* The handlers are parameters: a handler returns any value or raises, and a database error
  inside it aborts the transaction.
-/
import ProcureSignal.Agents.Models

namespace ProcureSignal.Agents

open Retrieval (Json)

/-- `Tool`: its name, the properties of its schema and the required ones. -/
structure Tool where
  name : String
  properties : List String
  required : List String
  deriving DecidableEq, Repr

/-- `TOOL_CATALOGUE`. -/
def toolCatalogue : List Tool :=
  [⟨"get_supplier_impact", ["supplier_public_id"], ["supplier_public_id"]⟩,
   ⟨"list_risk_events", ["supplier_public_id", "days"], ["supplier_public_id"]⟩,
   ⟨"find_alternate_suppliers", ["country", "exclude_public_id"], ["country"]⟩,
   ⟨"search_articles", ["query", "days"], ["query"]⟩]

/-- The names in `tool_schemas()`. -/
def knownTools : List String := toolCatalogue.map (·.name)

/-- What a handler does: it returns a value, or it raises, with the transaction aborted or
not. -/
inductive ToolAnswer
  | result (v : Json)
  | raised (transactionAborted : Bool)

/-- The handlers: from the name, the accepted arguments and the organization. -/
abbrev Handlers := String → List (String × Json) → ℕ → ToolAnswer

/-- The arguments that the schema declares. -/
def Tool.accepted (tool : Tool) (arguments : List (String × Json)) : List (String × Json) :=
  arguments.filter fun a => a.1 ∈ tool.properties

/-- `dispatch`: an unknown name is a `KeyError`, a missing required argument a `TypeError`. -/
def dispatch (handlers : Handlers) (name : String) (arguments : List (String × Json))
    (organizationId : ℕ) : ToolAnswer :=
  match toolCatalogue.find? fun tool => tool.name = name with
  | none => .raised false
  | some tool =>
      let accepted := tool.accepted arguments
      if tool.required.all fun p => accepted.any fun a => a.1 = p then
        handlers tool.name accepted organizationId
      else .raised false

/-- **The model cannot choose whose data it reads.**  No tool declares an organization, so
the argument of that name is dropped. -/
theorem organizationId_not_accepted {tool : Tool} (h : tool ∈ toolCatalogue)
    (arguments : List (String × Json)) :
    ∀ a ∈ tool.accepted arguments, a.1 ≠ "organization_id" := by
  intro a ha heq
  have hproperties : a.1 ∈ tool.properties := of_decide_eq_true (List.mem_filter.mp ha).2
  rw [heq] at hproperties
  have hnone : ∀ tool ∈ toolCatalogue, "organization_id" ∉ tool.properties := by decide
  exact hnone tool h hproperties

/-- A dispatch that returns called the handler of a tool of the catalogue, for the caller's
organization and with declared arguments. -/
theorem dispatch_eq_result {handlers : Handlers} {name : String}
    {arguments : List (String × Json)} {organizationId : ℕ} {v : Json}
    (h : dispatch handlers name arguments organizationId = .result v) :
    ∃ tool ∈ toolCatalogue, tool.name = name ∧
      handlers name (tool.accepted arguments) organizationId = .result v := by
  rw [dispatch] at h
  cases hfind : toolCatalogue.find? (fun tool => tool.name = name) with
  | none =>
      rw [hfind] at h
      cases h
  | some tool =>
      rw [hfind] at h
      have hname : tool.name = name := by simpa using List.find?_some hfind
      dsimp only at h
      split at h
      · rw [hname] at h
        exact ⟨tool, List.mem_of_find?_eq_some hfind, hname, h⟩
      · cases h

end ProcureSignal.Agents
