import PartitionEngine.System.Host

/-!
# Groups of listeners

A member listens on consecutive ports, one for each reactor.  Group after group
of a range is tried until all ports of one are free.
-/

namespace PartitionEngine

/-- A group of listeners on consecutive ports. -/
structure ListenGroup where
  base : Nat
  /-- The listeners, in the order of their ports. -/
  descriptors : List Nat

namespace Host

def closeAll (h : Host) (descriptors : List Nat) : Host :=
  descriptors.foldl (fun h descriptor => h.close (some descriptor)) h

/-- Opens listeners on consecutive ports from `base` on, after those already open,
which come last first.  At the first port that fails all of them are closed. -/
def listenFrom (ip : Ip) : (count base : Nat) → (opened : List Nat) → Host →
    Except IoFailure (List Nat) × Host
  | 0, _, opened, h => (.ok opened.reverse, h)
  | count + 1, base, opened, h =>
    match h.listen (.ofIp ip (UInt16.ofNat base)) with
    | .ok (descriptor, h) => listenFrom ip count (base + 1) (descriptor :: opened) h
    | .error e => (.error e, h.closeAll opened)

/-- Tries groups of `count` ports from `base` on, as long as they end by `last`.
A group with a port that is taken or not permitted is passed over. -/
def searchGroups (ip : Ip) (last count : Nat) : (tries base : Nat) → IoFailure → Host →
    Except IoFailure ListenGroup × Host
  | 0, _, failure, h => (.error failure, h)
  | tries + 1, base, failure, h =>
    if last < base + count - 1 then (.error failure, h)
    else match listenFrom ip count base [] h with
      | (.ok descriptors, h) => (.ok { base, descriptors }, h)
      | (.error e, h) =>
        if e.isRetryable then searchGroups ip last count tries (base + count) e h
        else (.error e, h)

/-- Opens listeners on the first free group of `count` consecutive ports, at
least one, between two ports.  If there is none, no listener stays open. -/
def listenGroup (h : Host) (ip : Ip) (first last : UInt16) (count : Nat) :
    Except IoFailure ListenGroup × Host :=
  searchGroups ip last.toNat (max count 1) (last.toNat + 1 - first.toNat) first.toNat
    (.custom "AddrNotAvailable" "port range too small") h

end Host

end PartitionEngine
