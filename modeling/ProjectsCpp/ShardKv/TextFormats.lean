import ProjectsCpp.ShardKv.MovedOut
import ProjectsCpp.ShardKv.SnapShot

/-! Which configurations and which replies to a migration survive their texts. Nothing that
a reader makes holds a separator of its text, so what holds one is not read back. -/

namespace ProjectsCpp.Sharding
open ProjectsCpp.Text ProjectsCpp.Maps ShardKv

/-! ### Configurations -/

structure QueryReply where
  configStr : Str
  isWrongLeader : Bool

def QueryReply.getConfig (reply : QueryReply) : Option Config := Sharding.getConfig reply.configStr

/-- A configuration survives its text exactly if no name of a server is empty or holds a
separator, and both readers read the same. -/
theorem configText_iff {config : Config} (sized : config.shards.length = NShards) :
    ((∃ c, getConfig (getStringFromConfig config) = some c ∧ SameConfig c config) ↔
      ∀ group ∈ config.groups.entries, ∀ name ∈ group.2,
        name ≠ [] ∧ ':' ∉ name ∧ '|' ∉ name ∧ '/' ∉ name) ∧
    ∀ isWrongLeader, QueryReply.getConfig ⟨getStringFromConfig config, isWrongLeader⟩ =
      getConfig (getStringFromConfig config) := by
  refine ⟨⟨?_, fun names => ?_⟩, fun _ => rfl⟩
  · rintro ⟨c, read, -, -, groups⟩ group member
    have found := AList.mem_lookup_iff.mpr member
    rw [Option.mem_def, ← groups] at found
    exact named_of_getConfig read group.1 group.2 found
  · have some_ : config.shards ≠ [] := by
      apply List.ne_nil_of_length_pos
      rw [sized]
      decide
    exact getConfig_whole some_ fun gid servers found =>
      names ⟨gid, servers⟩ (AList.mem_lookup_iff.mp found)

def twoGroups : Config :=
  ⟨1, List.replicate NShards 7, ⟨[⟨7, [['a'], ['b', 'c']]⟩, ⟨8, []⟩], by
    rw [List.NodupKeys]
    decide⟩⟩

theorem twoGroups_text :
    ∃ c, getConfig (getStringFromConfig twoGroups) = some c ∧ SameConfig c twoGroups :=
  (configText_iff (show twoGroups.shards.length = NShards from rfl)).1.mpr (by decide)

/-! ### Replies to a migration -/

def ErrNoKey : Str := ['E', 'r', 'r', 'N', 'o', 'K', 'e', 'y']

/-- The error strings of `myClass.h`. -/
def errs : List Str := [OK, ErrNoKey, ErrWrongGroup, ErrWrongLeader]

def MigrateReply.Same (sent reply : MigrateReply) : Prop :=
  sent.Sent reply ∧ ∀ key, reply.database.lookup key = sent.database.lookup key

theorem word_of_errs {err : Str} (member : err ∈ errs) : err ≠ [] ∧ '|' ∉ err := by
  have all : errs.all (fun err => decide (err ≠ [] ∧ '|' ∉ err)) = true := by decide
  exact of_decide_eq_true (List.all_eq_true.mp all err member)

theorem portable_of_databaseOf {text : Str} {m : AList fun _ : Str => Str} (clean : '|' ∉ text)
    (read : databaseOf text = some m) : Every Portable m := by
  rw [databaseOf] at read
  split at read
  · cases read
    exact every_empty
  · obtain ⟨data, cuts, rfl⟩ := Option.map_eq_some_iff.mp read
    refine every_foldl every_empty fun pair member => ?_
    obtain ⟨w, field, cut⟩ := mem_of_mapM cuts member
    obtain ⟨rfl, colon⟩ := eq_of_cutAt cut
    have slash := (mem_fields field).2
    have bar := notMem_fields clean _ field
    simp only [List.mem_append, List.mem_cons, not_or] at slash bar
    exact ⟨⟨colon, slash.1, bar.1⟩, slash.2.2, bar.2.2⟩

theorem portable_of_str2MigrateReply {text : Str} {reply : MigrateReply}
    (read : str2MigrateReply text = some reply) : Every Portable reply.database := by
  rw [str2MigrateReply] at read
  split at read
  · rename_i num shard err reqs data more parts
    simp only [Option.bind_eq_some_iff, Option.map_eq_some_iff] at read
    obtain ⟨n, -, s, -, requests, -, database, decoded, rfl⟩ := read
    have piece : data ∈ pieces '|' text := by simp [parts]
    exact portable_of_databaseOf (mem_pieces piece).2 decoded
  · cases read

theorem str2MigrateReply_some {sent : MigrateReply} (word : sent.err ≠ [] ∧ '|' ∉ sent.err)
    (portable : AllPortable sent.database) :
    ∃ reply, str2MigrateReply (migrateReply2Str sent) = some reply := by
  obtain ⟨ne, clean⟩ := databaseText_clean portable
  have last : pieces '|' (ended '|' [databaseText sent.database]) =
      [databaseText sent.database] := by
    rw [ended_cons, ended_nil, pieces_sep ne clean, pieces_nil]
  obtain ⟨requests, reqs, -⟩ := requestsOf_whole sent.clientReqId
  obtain ⟨database, data, -⟩ := databaseOf_whole portable
  rw [str2MigrateReply, pieces_migrateReply2Str word, last]
  simp [reqs, data]

/-- A reply survives its text exactly if its pairs hold no separator, but for `:` in values. -/
theorem migrateReplyText_iff {sent : MigrateReply} (err : sent.err ∈ errs) :
    (∃ reply, str2MigrateReply (migrateReply2Str sent) = some reply ∧ sent.Same reply) ↔
      ∀ pair ∈ sent.database.entries,
        (':' ∉ pair.1 ∧ '/' ∉ pair.1 ∧ '|' ∉ pair.1) ∧ '/' ∉ pair.2 ∧ '|' ∉ pair.2 := by
  have word := word_of_errs err
  constructor
  · rintro ⟨reply, read, -, same⟩ pair member
    have found := AList.mem_lookup_iff.mpr member
    rw [Option.mem_def, ← same] at found
    exact portable_of_str2MigrateReply read pair.1 pair.2 found
  · intro portable
    obtain ⟨reply, read⟩ := str2MigrateReply_some word portable
    exact ⟨reply, read, str2MigrateReply_sent word read, str2MigrateReply_database word portable read⟩

def colonReply : MigrateReply := ⟨OK, 3, 2, ⟨[⟨[], [':', 'v']⟩], by
  rw [List.NodupKeys]
  decide⟩, ∅⟩

theorem colonReply_text : ∃ reply, str2MigrateReply (migrateReply2Str colonReply) = some reply ∧
    colonReply.Same reply :=
  (migrateReplyText_iff (show colonReply.err ∈ errs by decide)).mpr (by decide)

end ProjectsCpp.Sharding
