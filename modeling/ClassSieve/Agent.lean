import ClassSieve.Cache

/-!
# Agents

An agent holds the policy in force, the loaders that are known to it and the cache. Loaders are
retired by giving up the handle that registering them returned. `step` performs one operation, and
`run` a sequence of them.
-/
namespace ClassSieve
open ClassFile

structure Handle where
  key : LoaderKey
  held : Bool
  deriving DecidableEq, Repr

structure Agent where
  edition : Edition
  loaders : Loaders
  handles : List Handle
  cache : Cache

inductive Operation where
  | register
  | retire (handle : Nat)
  /-- A class is loaded; hidden and anonymous classes have no name. -/
  | load (loader : LoaderKey) (name : Option String) (bytes : Bytes)
  | redefine (loader : LoaderKey) (name : String) (bytes : Bytes)
  | peek (loader : LoaderKey) (name : String)
  | findAny (name : String)
  | invalidate (loader : LoaderKey) (name : String)
  | evictLoader (loader : LoaderKey)
  | sweep
  | replacePolicy (policy : Policy)

inductive Answer where
  | key (key : LoaderKey)
  | flag (value : Bool)
  | lookup (answer : Lookup)
  | entry (found : Option Entry)
  | anywhere (found : Option (LoaderKey × Entry))
  | count (value : Nat)

namespace Agent

def ofPolicy (policy : Policy) (capacity : Nat) : Agent where
  edition := .first policy
  loaders := .initial
  handles := []
  cache := .ofCapacity capacity .initial

/-- Installing an agent for the whole process keeps the first one; a later one is handed back. -/
def install (installed : Option Agent) (agent : Agent) : Agent × Option Agent :=
  match installed with
  | none => (agent, none)
  | some first => (first, some agent)

def register (agent : Agent) : Agent × LoaderKey :=
  let (key, loaders) := agent.loaders.register
  ({ agent with loaders, handles := agent.handles ++ [⟨key, true⟩] }, key)

def retire (agent : Agent) (handle : Nat) : Agent × Bool :=
  match agent.handles[handle]? with
  | some ⟨key, true⟩ =>
    ({ agent with
      loaders := agent.loaders.retire key
      handles := agent.handles.set handle ⟨key, false⟩ }, true)
  | _ => (agent, false)

def load (agent : Agent) (loader : LoaderKey) (name : Option String) (bytes : Bytes) :
    Agent × Lookup :=
  let (cache, answer) := match name with
    | some name => agent.cache.getOrCompute agent.loaders agent.edition loader name bytes
    | none => agent.cache.computeAnonymous agent.edition bytes
  ({ agent with cache }, answer)

def redefine (agent : Agent) (loader : LoaderKey) (name : String) (bytes : Bytes) :
    Agent × Lookup :=
  let (cache, answer) := agent.cache.redefine agent.loaders agent.edition loader name bytes
  ({ agent with cache }, answer)

def replacePolicy (agent : Agent) (policy : Policy) : Agent :=
  { agent with edition := agent.edition.replace policy }

def step (agent : Agent) : Operation → Agent × Answer
  | .register => (agent.register.1, .key agent.register.2)
  | .retire handle => ((agent.retire handle).1, .flag (agent.retire handle).2)
  | .load loader name bytes =>
    let (agent, answer) := agent.load loader name bytes
    (agent, .lookup answer)
  | .redefine loader name bytes =>
    let (agent, answer) := agent.redefine loader name bytes
    (agent, .lookup answer)
  | .peek loader name =>
    let (cache, found) := agent.cache.peek loader name
    ({ agent with cache }, .entry found)
  | .findAny name =>
    let (cache, found) := agent.cache.findAny agent.loaders name
    ({ agent with cache }, .anywhere found)
  | .invalidate loader name =>
    let (cache, removed) := agent.cache.invalidate loader name
    ({ agent with cache }, .flag removed)
  | .evictLoader loader =>
    let (cache, dropped) := agent.cache.evictLoader loader
    ({ agent with cache }, .count dropped)
  | .sweep =>
    let (cache, dropped) := agent.cache.sweep agent.loaders
    ({ agent with cache }, .count dropped)
  | .replacePolicy policy =>
    (agent.replacePolicy policy, .count (agent.replacePolicy policy).edition.generation)

def run (agent : Agent) : List Operation → Agent × List Answer
  | [] => (agent, [])
  | operation :: rest =>
    let (next, answer) := agent.step operation
    let (last, answers) := next.run rest
    (last, answer :: answers)

end Agent

end ClassSieve
