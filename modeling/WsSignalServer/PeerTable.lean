import WsSignalServer.Registry
import WsSignalServer.Json.Utf8

/-!
# The printed list of peers

At every change of the registry `PrintPeers` writes a table of the peers to the log. It sorts them
by filing them under their ids in a second map, `map_sort_peers`, in which peers of one id would
share an entry.

**Theorem (`printPeers_rows`).** In every state reached the table has one row for each registered
peer, and the ids go up.

The form for versions of Windows that do not show the long lines is left out.
-/

namespace WsSignalServer

open Std General Json

variable {H : Type} [LinearOrder H] {s : SignalServer H}

/-! ## The table -/

/-- `std::left << std::setw(n) << s`. -/
def setwLeft (n : ℕ) (s : Str) : Str := s ++ List.replicate (n - s.length) ' '

def tableHead : Str :=
  utf8 ("┌──────┬──────────────────────────────────────────────┐\n".toList ++
    "│ id   │ name                                         │\n".toList ++
    "├──────┼──────────────────────────────────────────────┤\n".toList)

def tableRow (p : Peer H) : Str :=
  utf8 "│ ".toList ++ setwLeft 5 (intToString p.id) ++ utf8 "│ ".toList ++ setwLeft 43 p.name ++
    "  ".toList ++ utf8 "│\n".toList

def tableFoot : Str :=
  utf8 "└──────┴──────────────────────────────────────────────┘\n".toList

/-- What goes to the log for these peers. -/
def peerTable (peers : List (Peer H)) : Str :=
  "peer list\n".toList ++ (tableHead ++ peers.flatMap tableRow ++ tableFoot) ++ "  \n".toList

namespace SignalServer

def mapSortPeers (s : SignalServer H) : ExtTreeMap ℤ (Peer H) compare :=
  s.mapPeers.toList.foldl (fun peers e => peers.insert e.2.id e.2) ∅

def printPeers (s : SignalServer H) : Str := peerTable (s.mapSortPeers.toList.map Prod.snd)

end SignalServer

/-! ## Its rows -/

/-- **The rows are the peers, by id.** -/
theorem printPeers_rows (hs : Reachable s) : ∃ peers : List (Peer H),
    s.printPeers = peerTable peers ∧ peers.Pairwise (fun p q => p.id < q.id) ∧
      ∀ p, p ∈ peers ↔ s.mapPeers[p.hdl]? = some p := by
  have hreg := hs.registered
  obtain ⟨hsorted, hmem⟩ := hreg.distinct.reindex_values
  refine ⟨s.mapSortPeers.toList.map Prod.snd, rfl, hsorted, fun p => ?_⟩
  refine (hmem p).trans ⟨fun hp => ?_, fun hp => ⟨p.hdl, hp⟩⟩
  obtain ⟨k, hk⟩ := hp
  rwa [hreg.own k p hk]

/-- The table of three peers of one name, which signed in one after the other. -/
theorem printPeers_rows_three : ∃ peers : List (Peer ℕ),
    threePeers.printPeers = peerTable peers ∧ peers.Pairwise (fun p q => p.id < q.id) ∧
      ∀ p, p ∈ peers ↔ threePeers.mapPeers[p.hdl]? = some p :=
  printPeers_rows threePeers_reachable

end WsSignalServer
