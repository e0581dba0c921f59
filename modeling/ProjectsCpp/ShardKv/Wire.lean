import ProjectsCpp.Lib.Maps

/-! The texts in which shardKv sends configurations and shards (`shardmaster/common.h`,
`shardKv/server.cpp`). A container of the source that has no order is listed in the order
of its entries here. A read past the end of a vector, or an exception, gives `none`. -/

namespace ProjectsCpp.Sharding
open ProjectsCpp.Text ProjectsCpp.Maps

def NShards : Nat := 10

/-! ### Configurations -/

/-- `shards` is shard -> gid, `groups` is gid -> servers. -/
structure Config where
  configNum : Int
  shards : List Int
  groups : AList fun _ : Int => List Str

def Config.empty : Config := ⟨0, List.replicate NShards 0, ∅⟩

def Config.owner (config : Config) (shard : Int) : Option Int :=
  if 0 ≤ shard then config.shards[shard.toNat]? else none

def getStringFromConfig (config : Config) : Str :=
  ended '/' [decimal config.configNum, ended ':' (config.shards.map decimal),
    ended '|' (config.groups.entries.map fun group => ended ':' (decimal group.1 :: group.2))]

/-- `GetVectorOfIntFromString`. -/
def getVectorOfInt (text : Str) : Option (List Int) := (pieces ':' text).mapM stoi

/-- The second loop of `getMapFromServersShardInfo`; `tmp` is not cleared between two groups. -/
def serverNames : List Str → Str → List (List Str)
  | [], _ => []
  | s :: ss, tmp => (scan ':' s tmp).1 :: serverNames ss (scan ':' s tmp).2

def groupOf : List Str → Option (Int × List Str)
  | [] => none
  | gid :: servers => (stoi gid).map fun g => (g, servers)

/-- `getMapFromServersShardInfo`. -/
def getMap (text : Str) : Option (AList fun _ : Int => List Str) :=
  ((serverNames (pieces '|' text) []).mapM groupOf).map fun groups =>
    groups.foldl (fun m g => m.insert g.1 g.2) ∅

def getConfig (text : Str) : Option Config :=
  match pieces '/' text with
  | [num, shards] =>
    (stoi num).bind fun n => (getVectorOfInt shards).map fun owners => ⟨n, owners, ∅⟩
  | num :: shards :: groups :: _ =>
    (stoi num).bind fun n => (getVectorOfInt shards).bind fun owners =>
      (getMap groups).map fun gs => ⟨n, owners, gs⟩
  | _ => none

theorem getVectorOfInt_decimal (owners : List Int) :
    getVectorOfInt (ended ':' (owners.map decimal)) = some owners := by
  have words : ∀ w ∈ owners.map decimal, w ≠ [] ∧ ':' ∉ w := by
    intro w member
    obtain ⟨z, -, rfl⟩ := List.mem_map.mp member
    exact ⟨decimal_ne_nil z, notMem_decimal z (by decide) (by decide)⟩
  rw [getVectorOfInt, pieces_all_ended _ words]
  exact mapM_map owners fun z _ => stoi_decimal z

theorem serverNames_pieces (texts : List Str) (closed : ∀ s ∈ texts, rest ':' s = []) :
    serverNames texts [] = texts.map (pieces ':') := by
  induction texts with
  | nil => rfl
  | cons s texts ih =>
    have left : (scan ':' s []).2 = [] := closed s List.mem_cons_self
    rw [serverNames, left, ih fun t member => closed t (List.mem_cons_of_mem _ member)]
    rfl

theorem getConfig_getString {config c : Config} (sized : config.shards ≠ [])
    (read : getConfig (getStringFromConfig config) = some c) :
    c.configNum = config.configNum ∧ c.shards = config.shards := by
  have words : ∀ w ∈ [decimal config.configNum, ended ':' (config.shards.map decimal)],
      w ≠ [] ∧ '/' ∉ w := by
    intro w member
    rcases List.mem_cons.mp member with rfl | member
    · exact ⟨decimal_ne_nil _, notMem_decimal _ (by decide) (by decide)⟩
    · cases List.mem_singleton.mp member
      refine ⟨ended_ne_nil fun none => sized (List.map_eq_nil_iff.mp none), ?_⟩
      refine notMem_ended (by decide) fun w inside => ?_
      obtain ⟨z, -, rfl⟩ := List.mem_map.mp inside
      exact notMem_decimal z (by decide) (by decide)
  have split := pieces_ended (t := ended '/' [ended '|' (config.groups.entries.map fun group =>
    ended ':' (decimal group.1 :: group.2))]) _ words
  have text : getStringFromConfig config = ended '/' [decimal config.configNum,
      ended ':' (config.shards.map decimal)] ++ ended '/' [ended '|' (config.groups.entries.map
        fun group => ended ':' (decimal group.1 :: group.2))] := by
    simp [getStringFromConfig, ended]
  rw [getConfig, text, split] at read
  cases groups : pieces '/' (ended '/' [ended '|' (config.groups.entries.map fun group =>
    ended ':' (decimal group.1 :: group.2))]) with
  | nil =>
    simp only [groups, List.append_nil, stoi_decimal, getVectorOfInt_decimal, Option.bind_some,
      Option.map_some, Option.some.injEq] at read
    rw [← read]
    exact ⟨rfl, rfl⟩
  | cons g gs =>
    simp only [groups, List.cons_append, List.nil_append, stoi_decimal, getVectorOfInt_decimal,
      Option.bind_some, Option.map_eq_some_iff] at read
    obtain ⟨m, -, rfl⟩ := read
    exact ⟨rfl, rfl⟩

/-! ### Shards on the move -/

def OK : Str := ['O', 'K']
def ErrWrongGroup : Str := ['E', 'r', 'r', 'W', 'r', 'o', 'n', 'g', 'G', 'r', 'o', 'u', 'p']
def empty : Str := ['e', 'm', 'p', 't', 'y']

structure MigrateReply where
  err : Str
  shard : Int
  configNum : Int
  database : AList fun _ : Str => Str
  clientReqId : AList fun _ : Int => Int

theorem ended_ne_empty {sep : Char} {words : List Str} (some : words ≠ []) (mark : sep ∉ empty) :
    ended sep words ≠ empty := by
  intro same
  obtain ⟨w, words, rfl⟩ := List.exists_cons_of_ne_nil some
  rw [ended_cons] at same
  exact mark (same ▸ List.mem_append_right _ List.mem_cons_self)

def reqText (req : Sigma fun _ : Int => Int) : Str := decimal req.1 ++ ':' :: decimal req.2

def requestText (clientReqId : AList fun _ : Int => Int) : Str :=
  if clientReqId.entries = [] then empty else ended '/' (clientReqId.entries.map reqText)

def databaseText (database : AList fun _ : Str => Str) : Str :=
  if database.entries = [] then empty
  else ended '/' (database.entries.map fun data => data.1 ++ ':' :: data.2)

def migrateReply2Str (reply : MigrateReply) : Str :=
  ended '|' [decimal reply.configNum, decimal reply.shard, reply.err,
    requestText reply.clientReqId, databaseText reply.database]

/-- One request of the text; a text without `:` throws. -/
def reqOf (text : Str) : Option (Sigma fun _ : Int => Int) :=
  (cutAt ':' text).bind fun cut => (stoi cut.1).bind fun c => (stoi cut.2).map fun r => ⟨c, r⟩

def requestsOf (text : Str) : Option (AList fun _ : Int => Int) :=
  if text = empty then some ∅
  else ((fields '/' text).mapM reqOf).map fun reqs => reqs.foldl (fun m r => m.insert r.1 r.2) ∅

def databaseOf (text : Str) : Option (AList fun _ : Str => Str) :=
  if text = empty then some ∅
  else ((fields '/' text).mapM (cutAt ':')).map fun data =>
    data.foldl (fun m d => m.insert d.1 d.2) ∅

def str2MigrateReply (text : Str) : Option MigrateReply :=
  match pieces '|' text with
  | num :: shard :: err :: reqs :: data :: _ =>
    (stoi num).bind fun n => (stoi shard).bind fun s =>
      (requestsOf reqs).bind fun requests => (databaseOf data).map fun database =>
        ⟨err, s, n, database, requests⟩
  | _ => none

theorem reqText_clean {c : Char} (digit : c.isDigit = false) (dash : c ≠ '-') (colon : c ≠ ':')
    (req : Sigma fun _ : Int => Int) : c ∉ reqText req := by
  rw [reqText, List.mem_append, List.mem_cons, not_or, not_or]
  exact ⟨notMem_decimal _ digit dash, colon, notMem_decimal _ digit dash⟩

theorem reqText_ne_nil (req : Sigma fun _ : Int => Int) : reqText req ≠ [] :=
  List.append_ne_nil_of_left_ne_nil (decimal_ne_nil _) _

@[simp] theorem reqOf_reqText (req : Sigma fun _ : Int => Int) : reqOf (reqText req) = some req := by
  have noColon : ':' ∉ decimal req.1 := notMem_decimal req.1 (by decide) (by decide)
  have cut := cutAt_sep (t := decimal req.2) noColon
  rw [reqOf, reqText, cut]
  simp

theorem requestsOf_whole (reqs : AList fun _ : Int => Int) :
    ∃ m, requestsOf (requestText reqs) = some m ∧ ∀ c, m.lookup c = reqs.lookup c := by
  by_cases none : reqs.entries = []
  · have nothing : reqs = ∅ := AList.ext none
    exact ⟨∅, by rw [requestText, if_pos none, requestsOf, if_pos rfl], fun c => by rw [nothing]⟩
  · have words : ∀ w ∈ reqs.entries.map reqText, w ≠ [] ∧ '/' ∉ w := by
      intro w member
      obtain ⟨req, -, rfl⟩ := List.mem_map.mp member
      exact ⟨reqText_ne_nil _, reqText_clean (by decide) (by decide) (by decide) _⟩
    have notEmpty : ended '/' (reqs.entries.map reqText) ≠ empty :=
      ended_ne_empty (fun nothing => none (List.map_eq_nil_iff.mp nothing)) (by decide)
    rw [requestText, if_neg none, requestsOf, if_neg notEmpty, fields_ended _ words,
      mapM_map _ fun req _ => reqOf_reqText req]
    refine ⟨_, rfl, fun c => ?_⟩
    rw [lookup_foldl_insert _ reqs.nodupKeys]
    simp [AList.lookup]

theorem requestsOf_requestText {reqs m : AList fun _ : Int => Int}
    (read : requestsOf (requestText reqs) = some m) (c : Int) : m.lookup c = reqs.lookup c := by
  obtain ⟨whole, readWhole, same⟩ := requestsOf_whole reqs
  rw [read, Option.some.injEq] at readWhole
  rw [readWhole, same]

/-- What a decoded reply keeps of the one that was sent, whatever its data is. -/
structure MigrateReply.Sent (sent reply : MigrateReply) : Prop where
  configNum : reply.configNum = sent.configNum
  shard : reply.shard = sent.shard
  err : reply.err = sent.err
  clientReqId : ∀ c, reply.clientReqId.lookup c = sent.clientReqId.lookup c

theorem MigrateReply.Sent.trans {a b c : MigrateReply} (first : a.Sent b) (second : b.Sent c) :
    a.Sent c :=
  ⟨second.configNum.trans first.configNum, second.shard.trans first.shard,
    second.err.trans first.err,
    fun client => (second.clientReqId client).trans (first.clientReqId client)⟩

theorem requestText_clean (reqs : AList fun _ : Int => Int) :
    requestText reqs ≠ [] ∧ '|' ∉ requestText reqs := by
  rw [requestText]
  split
  · decide
  · rename_i some_
    refine ⟨ended_ne_nil fun none => some_ (List.map_eq_nil_iff.mp none), ?_⟩
    refine notMem_ended (by decide) fun w member => ?_
    obtain ⟨req, -, rfl⟩ := List.mem_map.mp member
    exact reqText_clean (by decide) (by decide) (by decide) req

theorem pieces_migrateReply2Str {sent : MigrateReply} (word : sent.err ≠ [] ∧ '|' ∉ sent.err) :
    pieces '|' (migrateReply2Str sent) = [decimal sent.configNum, decimal sent.shard, sent.err,
      requestText sent.clientReqId] ++ pieces '|' (ended '|' [databaseText sent.database]) := by
  have words : ∀ w ∈ [decimal sent.configNum, decimal sent.shard, sent.err,
      requestText sent.clientReqId], w ≠ [] ∧ '|' ∉ w := by
    have number : ∀ z : Int, decimal z ≠ [] ∧ '|' ∉ decimal z := fun z =>
      ⟨decimal_ne_nil z, notMem_decimal z (by decide) (by decide)⟩
    intro w member
    simp only [List.mem_cons, List.not_mem_nil, or_false] at member
    rcases member with rfl | rfl | rfl | rfl
    · exact number _
    · exact number _
    · exact word
    · exact requestText_clean _
  have text : migrateReply2Str sent = ended '|' [decimal sent.configNum, decimal sent.shard,
      sent.err, requestText sent.clientReqId] ++ ended '|' [databaseText sent.database] := by
    simp [migrateReply2Str, ended]
  rw [text, pieces_ended _ words]

theorem str2MigrateReply_sent {sent reply : MigrateReply} (word : sent.err ≠ [] ∧ '|' ∉ sent.err)
    (read : str2MigrateReply (migrateReply2Str sent) = some reply) : sent.Sent reply := by
  rw [str2MigrateReply, pieces_migrateReply2Str word] at read
  cases data : pieces '|' (ended '|' [databaseText sent.database]) with
  | nil =>
    rw [data] at read
    cases read
  | cons d ds =>
    rw [data] at read
    simp only [List.cons_append, List.nil_append, stoi_decimal, Option.bind_some,
      Option.bind_eq_some_iff, Option.map_eq_some_iff] at read
    obtain ⟨m, reqs, database, -, rfl⟩ := read
    exact ⟨rfl, rfl, rfl, requestsOf_requestText reqs⟩

end ProjectsCpp.Sharding
