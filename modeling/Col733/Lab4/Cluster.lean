import Col733.Lab4.Server
import Mathlib.Data.List.Dedup
import Mathlib.Data.List.Sort

/-!
# `core/cluster.py` and `bayou/cluster.py`

The servers that a `BayouClusterManager` makes of a topology. A set of servers is the
list of its elements in the order in which Python iterates it, which is not specified.

The list of peers, from which every server makes the vectors of its storage, is
collected from the values of the topology, and the servers from its keys and its
values. So a server that is a key and no other server's peer is left out of the vectors
of the whole cluster, its own included.
-/

namespace Col733.Lab4

/-- For each server those to which it has a connection. -/
abbrev Topology := Dict ServerInfo (List ServerInfo)

namespace Topology

/-- `self._server_infos` after the loop of `ClusterManager.__init__`. -/
def serverInfos (topology : Topology) : Dict String ServerInfo :=
  topology.entries.foldl
    (fun infos item => item.2.foldl (fun infos t => infos.set t.name t)
      (infos.set item.1.name item.1)) Dict.empty

/-- `self._topology`: a server without connections has an empty set of them. -/
def completed (topology : Topology) : Topology :=
  topology.serverInfos.values.foldl
    (fun topology si => if topology.contains si then topology else topology.set si []) topology

/-- `self._topology[si]`, which is there for every server once the topology is completed. -/
def connectionsOf (topology : Topology) (si : ServerInfo) : List ServerInfo :=
  (topology.completed.get? si).getD []

/-- `self._peers` of a `BayouClusterManager`: the union of the values, by name. -/
def peers (topology : Topology) : List ServerInfo :=
  topology.values.flatten.dedup.insertionSort fun a b => a.name ≤ b.name

/-- `create_server`. -/
def createServer (topology : Topology) (masterName : String) (si : ServerInfo) : BayouAppServer :=
  BayouAppServer.new si (ConnectionStub.new (topology.connectionsOf si)) (si.name == masterName)
    topology.peers

/-- `self._servers` of a `BayouClusterManager`. -/
def servers (topology : Topology) (masterName : String) : Dict String BayouAppServer :=
  topology.serverInfos.values.foldl
    (fun servers si => servers.set si.name (topology.createServer masterName si)) Dict.empty

/-! ## The servers of a cluster -/

/-- The servers that a topology mentions, in the order in which they are entered. -/
def mentioned (topology : Topology) : List ServerInfo :=
  topology.entries.flatMap fun item => item.1 :: item.2

theorem foldl_serverInfos (items : List (ServerInfo × List ServerInfo))
    (infos : Dict String ServerInfo) :
    items.foldl (fun infos item => item.2.foldl (fun infos t => infos.set t.name t)
        (infos.set item.1.name item.1)) infos =
      ((items.flatMap fun item => item.1 :: item.2).map fun si => (si.name, si)).foldl
        (fun infos item => infos.set item.1 item.2) infos := by
  induction items generalizing infos with
  | nil => rfl
  | cons item items ih =>
    rw [List.foldl_cons, ih, List.flatMap_cons, List.map_append, List.foldl_append,
      List.map_cons, List.foldl_cons]
    simp only [List.foldl_map]

theorem serverInfos_eq (topology : Topology) :
    topology.serverInfos = Dict.ofList (topology.mentioned.map fun si => (si.name, si)) :=
  foldl_serverInfos topology.entries Dict.empty

/-- Every server is entered under its own name. -/
theorem name_of_mem_serverInfos {topology : Topology} {e : String × ServerInfo}
    (member : e ∈ topology.serverInfos.entries) : e.2.name = e.1 := by
  rw [serverInfos_eq] at member
  obtain ⟨si, _, rfl⟩ := List.mem_map.mp (Dict.mem_entries_ofList member)
  rfl

theorem mem_keys_serverInfos {topology : Topology} {name : String} :
    name ∈ topology.serverInfos.keys ↔ ∃ si ∈ topology.mentioned, si.name = name := by
  rw [← Dict.contains_iff_mem_keys, serverInfos_eq, Dict.contains_ofList]
  simp

theorem servers_eq (topology : Topology) (masterName : String) :
    topology.servers masterName = Dict.ofList (topology.serverInfos.values.map fun si =>
      (si.name, topology.createServer masterName si)) := by
  simp only [servers, Dict.ofList, List.foldl_map]

/-- The names of the servers created are those of the servers mentioned. -/
theorem mem_keys_servers {topology : Topology} {masterName name : String} :
    name ∈ (topology.servers masterName).keys ↔ ∃ si ∈ topology.mentioned, si.name = name := by
  rw [← mem_keys_serverInfos, ← Dict.contains_iff_mem_keys, servers_eq, Dict.contains_ofList]
  simp only [List.map_map, List.mem_map, Function.comp_apply, Dict.values, Dict.keys]
  constructor
  · rintro ⟨e, member, rfl⟩
    exact ⟨e, member, (name_of_mem_serverInfos member).symm⟩
  · rintro ⟨e, member, rfl⟩
    exact ⟨e, member, name_of_mem_serverInfos member⟩

theorem created_of_mem {topology : Topology} {masterName : String} {server : BayouAppServer}
    (member : server ∈ (topology.servers masterName).values) :
    ∃ si ∈ topology.serverInfos.values, server = topology.createServer masterName si := by
  rw [servers_eq] at member
  obtain ⟨e, entered, rfl⟩ := List.mem_map.mp member
  obtain ⟨si, created, rfl⟩ := List.mem_map.mp (Dict.mem_entries_ofList entered)
  exact ⟨si, created, rfl⟩

theorem mem_names_of_peers {topology : Topology} {name : String} :
    name ∈ topology.peers.map ServerInfo.name ↔
      ∃ tos ∈ topology.values, ∃ t ∈ tos, t.name = name := by
  simp only [peers, List.mem_map, List.mem_insertionSort, List.mem_dedup, List.mem_flatten]
  constructor
  · rintro ⟨t, ⟨tos, value, member⟩, same⟩
    exact ⟨tos, value, t, member, same⟩
  · rintro ⟨tos, value, t, member, same⟩
    exact ⟨t, ⟨tos, value, member⟩, same⟩

/-- Both vectors of every new storage have an entry for exactly the names of the peers. -/
theorem contains_of_created {topology : Topology} {masterName name : String}
    {server : BayouAppServer} (member : server ∈ (topology.servers masterName).values) :
    (server.storage.c.contains name = true ↔ name ∈ topology.peers.map ServerInfo.name) ∧
      (server.storage.f.contains name = true ↔ name ∈ topology.peers.map ServerInfo.name) := by
  obtain ⟨si, _, rfl⟩ := created_of_mem member
  exact ⟨VectorTime.contains_new, VectorTime.contains_new⟩

/-! ## Vectors that cover the cluster -/

/-- After any accepted advances, `is_ltime_earlier` and `advance` find the entry of the
server, whatever the time is. -/
def FindsEntry (v : VectorTime) (name : String) : Prop :=
  ∀ (history : List LogicalTime) (later : VectorTime),
    v.advanceAll history = .ok later → ∀ ts, (∃ earlier,
      later.isLtimeEarlier { name, ts } = .ok earlier) ∧
      ∀ key, (later.advance { name, ts }).1 ≠ .error (.keyError key)

/-- Each server created has in both vectors an entry for every server of the cluster, and
finds it when a write of that server is to be taken up. -/
def Covered (topology : Topology) (masterName : String) : Prop :=
  ∀ server ∈ (topology.servers masterName).values,
    ∀ name ∈ (topology.servers masterName).keys,
      (server.storage.c.contains name = true ∧ FindsEntry server.storage.c name) ∧
        (server.storage.f.contains name = true ∧ FindsEntry server.storage.f name)

theorem contains_of_advances {v later : VectorTime} {history : List LogicalTime}
    (accepted : v.advanceAll history = .ok later) (name : String) :
    later.contains name = v.contains name := by
  induction history generalizing v with
  | nil =>
    cases accepted
    rfl
  | cons l history ih =>
    unfold VectorTime.advanceAll at accepted
    split at accepted
    · rename_i next first
      rw [ih accepted, VectorTime.contains_advance first]
    · cases accepted

/-- An entry that is there is found, now and after any advances. -/
theorem findsEntry_of_contains {v : VectorTime} {name : String}
    (covered : v.contains name = true) : FindsEntry v name := by
  intro history later accepted ts
  have still : later.contains name = true := by
    rw [contains_of_advances accepted, covered]
  obtain ⟨known, found⟩ := VectorTime.getItem_of_contains still
  refine ⟨⟨decide (ts ≤ known.ts), ?_⟩, ?_⟩
  · simp only [VectorTime.isLtimeEarlier, found]
  · intro key
    simp only [VectorTime.advance, found]
    split
    · exact fun raised => nomatch raised
    · exact fun raised => nomatch raised

theorem covered_iff_peers (topology : Topology) (masterName : String) :
    Covered topology masterName ↔
      ∀ from_ ∈ topology.keys, ∃ tos ∈ topology.values, ∃ t ∈ tos, t.name = from_.name := by
  constructor
  · intro covered from_ key
    obtain ⟨item, entry, rfl⟩ := List.mem_map.mp key
    have created : item.1.name ∈ (topology.servers masterName).keys :=
      mem_keys_servers.mpr
        ⟨item.1, List.mem_flatMap.mpr ⟨item, entry, List.mem_cons_self⟩, rfl⟩
    obtain ⟨e, entered, same⟩ := List.mem_map.mp created
    have member : e.2 ∈ (topology.servers masterName).values := List.mem_map_of_mem entered
    have has := (covered e.2 member item.1.name created).1.1
    exact mem_names_of_peers.mp ((contains_of_created member).1.mp has)
  · intro peered server member name created
    obtain ⟨si, mention, rfl⟩ := mem_keys_servers.mp created
    have peer : si.name ∈ topology.peers.map ServerInfo.name := by
      obtain ⟨item, entry, place⟩ := List.mem_flatMap.mp mention
      rcases List.mem_cons.mp place with rfl | value
      · exact mem_names_of_peers.mpr (peered item.1 (List.mem_map_of_mem entry))
      · exact mem_names_of_peers.mpr ⟨item.2, List.mem_map_of_mem entry, si, value, rfl⟩
    have hasC := (contains_of_created member).1.mpr peer
    have hasF := (contains_of_created member).2.mpr peer
    exact ⟨⟨hasC, findsEntry_of_contains hasC⟩, ⟨hasF, findsEntry_of_contains hasF⟩⟩

end Topology

/-- The vectors of a cluster cover it if and only if every server that has connections is
itself some server's peer. -/
theorem vectors_cover_cluster (topology : Topology) (masterName : String) :
    topology.Covered masterName ↔
      ∀ from_ ∈ topology.keys, ∃ tos ∈ topology.values, ∃ t ∈ tos, t.name = from_.name :=
  topology.covered_iff_peers masterName

/-- Servers with the same name are the same. -/
def Topology.DistinctNames (topology : Topology) : Prop :=
  ∀ a ∈ topology.mentioned, ∀ b ∈ topology.mentioned, a.name = b.name → a = b

instance (topology : Topology) : Decidable topology.DistinctNames :=
  inferInstanceAs (Decidable (∀ a ∈ topology.mentioned, ∀ b ∈ topology.mentioned,
    a.name = b.name → a = b))

/-- A connection in one direction alone. -/
def oneWay : Topology :=
  Dict.ofList [({ name := "s1", port := 10005 }, [{ name := "s2", port := 10006 }]),
    ({ name := "s2", port := 10006 }, [])]

theorem not_vectors_cover_cluster :
    ¬ ∀ topology masterName, Topology.DistinctNames topology →
      topology.Covered masterName := by
  intro always
  have covered := always oneWay "s1" (by decide)
  rw [Topology.covered_iff_peers] at covered
  obtain ⟨tos, value, t, member, same⟩ := covered { name := "s1", port := 10005 } (by decide)
  revert tos t
  decide

end Col733.Lab4
