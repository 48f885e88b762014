import Astock.Lib.Run
import Astock.Spec.Conversations

/-!
# Runs of the Agent store

A run is a list of calls of the writing functions of the store, each with the
wall-clock second at which it was made. The database thread serves them one at a
time, so every interleaving of callers is such a list.
-/

namespace Astock

open Prog

/-- A call of a writing function. -/
inductive StoreCall where
  | createTask (now : ℤ) (input : CreateTask)
  | appendEvent (now : ℤ) (input : AppendEvent)
  | putCheckpoint (now : ℤ) (input : PutCheckpoint)
  | beginEffect (now : ℤ) (input : BeginEffect)
  | completeEffect (now : ℤ) (input : CompleteEffect)
  | saveConversation (now : ℤ) (input : SaveConversation)
  | renameConversation (now : ℤ) (input : RenameConversation)
  | deleteConversation (now : ℤ) (conversationId : String)
  | branchConversation (now : ℤ) (input : BranchConversation)
  deriving DecidableEq

variable (P : Platform)

/-- The program of a call, with the value of an `Ok` dropped. -/
def StoreCall.prog : StoreCall → Sql Unit
  | .createTask now input => do let _ ← Astock.createTask now input
  | .appendEvent now input => do let _ ← Astock.appendEvent now input
  | .putCheckpoint now input => Astock.putCheckpoint now input
  | .beginEffect now input => do let _ ← Astock.beginEffect P now input
  | .completeEffect now input => Astock.completeEffect now input
  | .saveConversation now input => do let _ ← Astock.saveConversation now input
  | .renameConversation now input => do let _ ← Astock.renameConversation now input
  | .deleteConversation now conversationId => do let _ ← Astock.deleteConversation now conversationId
  | .branchConversation now input => do let _ ← Astock.branchConversation now input

namespace EngineStore

/-- The rows after a call, whatever it answers. -/
def after (s : EngineStore) (c : StoreCall) : EngineStore := (exec (c.prog P) s).2

/-- The rows after a list of calls. -/
def afterAll (s : EngineStore) (cs : List StoreCall) : EngineStore := Run.run (after P) s cs

/-- A store that some run from the empty store reaches. -/
def Reachable (s : EngineStore) : Prop := ∃ cs, afterAll P {} cs = s

end EngineStore

end Astock
