import ChainLedger.Text.Blank
import ChainLedger.Text.Digits

/-!
# Reports of a node

What a node says about its chain: blocks that it connected, disconnected or forked off, with
their transactions and the assets that those mint and burn. Difficulties, works and asset values
are kept as the text they were reported with.
-/

set_option autoImplicit false

namespace ChainLedger.Report

inductive Operation
  | connected
  | disconnected
  | fork
  deriving DecidableEq, Repr

namespace Operation

/-- Only connected blocks are on the main chain. -/
def isMainChain : Operation → Bool
  | connected => true
  | disconnected | fork => false

def name : Operation → String
  | connected => "CONNECTED"
  | disconnected => "DISCONNECTED"
  | fork => "FORK"

def variants : List (String × Operation) :=
  [connected, disconnected, fork].map fun operation => (operation.name, operation)

end Operation

structure Note where
  commitment : String
  deriving DecidableEq, Repr

structure Spend where
  nullifier : String
  deriving DecidableEq, Repr

/-- The asset that a transaction mints is described in full; only its first mint counts. -/
structure Mint where
  id : String
  metadata : String := ""
  name : String
  owner : String
  value : String
  deriving DecidableEq, Repr

structure Burn where
  id : String
  value : String
  deriving DecidableEq, Repr

structure Transaction where
  hash : String
  fee : Int64
  size : Int32
  notes : List Note := []
  spends : List Spend := []
  mints : List Mint := []
  burns : List Burn := []
  deriving DecidableEq, Repr

structure Block where
  hash : String
  sequence : Int32
  previousBlockHash : String
  /-- Milliseconds since the beginning of 1970. -/
  timestamp : Int64
  difficulty : String
  work : Option String := none
  graffiti : String := ""
  size : Int32 := 0
  operation : Operation
  transactions : List Transaction := []
  deriving DecidableEq, Repr

structure Upload where
  blocks : List Block
  deriving DecidableEq, Repr

def Upload.capacity : Nat := 3000

end ChainLedger.Report
