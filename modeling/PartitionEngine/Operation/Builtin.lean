import PartitionEngine.Operation.Registry

/-!
# The built-in operations

`ping` answers nothing, `echo` answers the request.  The other three work on
the table of the partition.

* upsert takes the length of the key in 4 bytes, the key and the value.  It
  answers the value it replaces.
* select takes a key and answers its value.
* evict takes a key and removes it.  It has no answer.

A value, or the lack of one, is answered as a byte that says whether there is
one, and the value.  `parseLookup?` reads such an answer, and `upsertPayload`
writes the request of an upsert.

Only instances of upsert keep anything, and that for the length of a run.  A
registry has one type of states for all operations, so this one has to have room
for it (`HasItem`).
-/

namespace PartitionEngine

/-- The request of an upsert.  The length field has 32 bits. -/
def upsertPayload (key value : Bytes) : Bytes :=
  bigEndian 4 (UInt32.ofNat key.length).toNat ++ key ++ value

def lookupPayload : Option Bytes → Bytes
  | some value => 1 :: value
  | none => [0]

def parseLookup? : Bytes → Option Bytes
  | [] => none
  | found :: value => if found = 0 then none else some value

namespace Builtin

/-- What an instance of upsert keeps: the key and the value it is about to store. -/
structure Item where
  key : Bytes := []
  value : Bytes := []
  deriving DecidableEq, Inhabited

/-- States of instances that have room for what an upsert keeps. -/
class HasItem (σ : Type) extends Inhabited σ where
  item : σ → Item
  withItem : σ → Item → σ
  item_withItem : ∀ s i, item (withItem s i) = i

instance : HasItem Item where
  item := id
  withItem _ i := i
  item_withItem _ _ := rfl

open HasItem (item withItem)

variable {σ : Type}

/-- An operation whose instances keep nothing. -/
def stateless [Inhabited σ] (run : Call → Bytes × Bytes × Tables × Ending) : Operation σ where
  fresh := default
  run := fun state call =>
    let (unread, output, tables, ending) := run call
    { state, unread, output, tables, ending }
  reset := id

/-- Answers nothing. -/
def ping [Inhabited σ] : Operation σ :=
  stateless fun c => (c.input, [], c.tables, .finished)

def echo [Inhabited σ] : Operation σ :=
  stateless fun c => ([], c.input, c.tables, .finished)

/-- Stores a value and answers the one it replaces.  The item is kept until it goes to the
table. -/
def runUpsert (kept : Item) (c : Call) : Run Item :=
  let fail (unread : Bytes) (text : String) : Run Item :=
    ⟨kept, unread, [], c.tables, .failed (.malformed text)⟩
  if c.input.length < 4 then fail c.input "missing key length"
  else
    let length := ofBigEndian (c.input.take 4)
    let rest := c.input.drop 4
    if rest.length < length then
      fail rest ("key length " ++ toString length ++ " exceeds payload")
    else
      let kept : Item := { key := rest.take length, value := rest.drop length }
      let (previous, tables) := c.tables.upsert c.partition kept.key kept.value
      ⟨{}, [], lookupPayload previous, tables, .finished⟩

/-- The same on states that hold more than the item. -/
def upsert [HasItem σ] : Operation σ where
  fresh := withItem default {}
  run := fun state call =>
    let run := runUpsert (item state) call
    ⟨withItem state run.state, run.unread, run.output, run.tables, run.ending⟩
  reset := fun state => withItem state {}

def select [Inhabited σ] : Operation σ :=
  stateless fun c => (c.input, lookupPayload (c.tables.get? c.partition c.input), c.tables, .finished)

def evict [Inhabited σ] : Operation σ :=
  stateless fun c => (c.input, [], (c.tables.evict c.partition c.input).2, .finished)

end Builtin

def Registry.builtin {σ : Type} [Builtin.HasItem σ] : Registry σ :=
  Registry.empty
    |>.register Opcode.ping.byte Builtin.ping
    |>.register Opcode.echo.byte Builtin.echo
    |>.register Opcode.tableUpsert.byte Builtin.upsert
    |>.register Opcode.tableSelectByKey.byte Builtin.select
    |>.register Opcode.tableEvict.byte Builtin.evict

end PartitionEngine
