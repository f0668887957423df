import OFM.Lib.Archive

/-!
# Analyzers

The tree of the analyzers of a connection, what is checked before it is written to an archive, and what
the archive has of it.
-/

namespace OFM.Bro
open OFM.Lib

inductive AnalyzerTag where
  | error
  | piaTcp | piaUdp
  | icmp | tcp | udp
  | bitTorrent | bitTorrentTracker | dceRpc | dns | finger | ftp | gnutella | http | ident | irc | login
  | ncp | netbiosSsn | nfs | ntp | pop3 | portmapper | rlogin | rpc | rsh | smb | smtp | ssh | telnet
  | dhcpBinpac | dnsTcpBinpac | dnsUdpBinpac | httpBinpac | ssl | syslogBinpac
  | ayiya | socks | teredo
  | file | backdoor | interConn | steppingStone | tcpStats | connSize
  | contents | contentLine | nvt | zip | contentsDns | contentsNcp | contentsNetbiosSsn | contentsRlogin
  | contentsRsh | contentsDceRpc | contentsSmb | contentsRpc | contentsNfs
  | lastAnalyzer
  deriving DecidableEq, Repr

/-- `sdmbn_can_serialize` -/
def sdmbnCanSerialize : AnalyzerTag → Bool
  | .piaTcp | .piaUdp | .icmp | .tcp | .udp | .dns | .ftp | .http | .smtp | .ssh | .ssl | .teredo | .file
  | .connSize | .contentLine | .nvt | .zip => true
  | _ => false

/-- An analyzer and what hangs from it. A chain of supporters starts with the one the analyzer points to;
`members` are the analyzers that other members of the class point to. -/
inductive Analyzer where
  | node (tag : AnalyzerTag) (children origSupporters respSupporters newChildren packetChildren :
      List Analyzer) (members : List AnalyzerTag)

namespace Analyzer

def tag : Analyzer → AnalyzerTag
  | node tag .. => tag

/-- `GetTag` is one that `sdmbn_can_serialize` accepts. -/
def accepted (a : Analyzer) : Bool := sdmbnCanSerialize a.tag

mutual

/-- The assertions on the way through `Analyzer::serialize`, and through what the archive follows from
there. Of a chain of supporters only the first one is checked. -/
def assertions (parent : Option AnalyzerTag) : Analyzer → Bool
  | node tag children origSupporters respSupporters newChildren packetChildren members =>
      parent.all sdmbnCanSerialize && children.all accepted && origSupporters.head?.all accepted &&
      respSupporters.head?.all accepted && newChildren.all accepted && packetChildren.all accepted &&
      members.all sdmbnCanSerialize && assertionsAll tag children && assertionsAll tag origSupporters &&
      assertionsAll tag respSupporters && assertionsAll tag newChildren && assertionsAll tag packetChildren

def assertionsAll (parent : AnalyzerTag) : List Analyzer → Bool
  | [] => true
  | a :: rest => assertions (some parent) a && assertionsAll parent rest

end

/-! ## Archives -/

/-- The items of a list, after its length. -/
def counted {α : Type} (l : List α) (items : List Item) : List Item := .number l.length :: items

mutual

/-- `Analyzer::serialize` into an archive. -/
def save : Analyzer → List Item
  | node tag children origSupporters respSupporters newChildren packetChildren members =>
      .number tag.ctorIdx :: (counted children (saveAll children) ++
        counted origSupporters (saveAll origSupporters) ++ counted respSupporters (saveAll respSupporters) ++
        counted newChildren (saveAll newChildren) ++ counted packetChildren (saveAll packetChildren) ++
        counted members (members.flatMap fun m => [.number m.ctorIdx]))

def saveAll : List Analyzer → List Item
  | [] => []
  | a :: rest => save a ++ saveAll rest

end

def loadTag : Loader AnalyzerTag := AnalyzerTag.ofNat <$> Loader.number

/-- `Analyzer::serialize` from an archive, for a tree that is not deeper than the fuel. -/
def loadFuel : Nat → Loader Analyzer
  | 0 => failure
  | fuel + 1 => do
      let tag ← loadTag
      let children ← Loader.list (loadFuel fuel)
      let origSupporters ← Loader.list (loadFuel fuel)
      let respSupporters ← Loader.list (loadFuel fuel)
      let newChildren ← Loader.list (loadFuel fuel)
      let packetChildren ← Loader.list (loadFuel fuel)
      let members ← Loader.list loadTag
      return node tag children origSupporters respSupporters newChildren packetChildren members

theorem saveAll_eq : ∀ l : List Analyzer, saveAll l = l.flatMap save
  | [] => by rw [saveAll, List.flatMap_nil]
  | a :: rest => by rw [saveAll, List.flatMap_cons, saveAll_eq rest]

theorem loadTag_run (tag : AnalyzerTag) (rest : List Item) :
    loadTag.run (.number tag.ctorIdx :: rest) = some (tag, rest) := by
  simp [loadTag, AnalyzerTag.ofNat_ctorIdx]

/-- A list comes next. -/
theorem list_bind {x : Loader Analyzer} {β : Type} {f : List Analyzer → Loader β} {l : List Analyzer}
    (h : ∀ a ∈ l, ∀ rest, x.run (a.save ++ rest) = some (a, rest)) (rest : List Item) :
    (Loader.list x >>= f).run (counted l (saveAll l) ++ rest) = (f l).run rest := by
  rw [StateT.run_bind, counted, List.cons_append, saveAll_eq, Loader.list_run h]
  rfl

mutual

/-- An analyzer is loaded from what has been saved of it. -/
theorem loadFuel_run : ∀ (a : Analyzer) {fuel : Nat}, a.save.length ≤ fuel → ∀ rest,
    (loadFuel fuel).run (a.save ++ rest) = some (a, rest)
  | node tag children origs resps news packets members, fuel, h, rest => by
      rw [save] at h ⊢
      simp only [counted, List.length_cons, List.length_append] at h
      obtain ⟨fuel, rfl⟩ : ∃ n, fuel = n + 1 := ⟨fuel - 1, by omega⟩
      rw [loadFuel, StateT.run_bind, List.cons_append, loadTag_run]
      simp only [List.append_assoc, Option.bind_eq_bind, Option.bind_some]
      rw [list_bind (loadFuel_run_all children (by omega)), list_bind (loadFuel_run_all origs (by omega)),
        list_bind (loadFuel_run_all resps (by omega)), list_bind (loadFuel_run_all news (by omega)),
        list_bind (loadFuel_run_all packets (by omega)), StateT.run_bind, counted, List.cons_append,
        Loader.list_run fun m _ rest => loadTag_run m rest]
      rfl

theorem loadFuel_run_all : ∀ (l : List Analyzer) {fuel : Nat}, (saveAll l).length ≤ fuel →
    ∀ a ∈ l, ∀ rest, (loadFuel fuel).run (a.save ++ rest) = some (a, rest)
  | [], _, _, _, ha, _ => absurd ha List.not_mem_nil
  | a :: l, fuel, h, b, hb, rest => by
      rw [saveAll, List.length_append] at h
      rcases List.mem_cons.mp hb with he | hb
      · rw [he]
        exact loadFuel_run a (by omega) rest
      · exact loadFuel_run_all l (by omega) b hb rest

end

/-- There is fuel for all that the archive can hold. -/
instance : Archived Analyzer where
  save := save
  load := fun items => (loadFuel items.length).run items
  load_save a rest := loadFuel_run a (by simp) rest

end Analyzer

end OFM.Bro
