import ForgeQueue.Model.Access
import ForgeQueue.Model.ClaimsJson
import ForgeQueue.Model.JsonBody
import ForgeQueue.Theorems.SsoPrivileges

/-!
# Only operators change the queue

A request or a call that is turned away, and one that only reads, leaves the queue as it is,
so a run is the run of the requests that operators and administrators made. The two doors
cut the token out of a header each in their own way; on a token without blanks, which every
token is that the service issues, they differ only in what may stand before it.
-/

namespace ForgeQueue

open Base

/-! ## Two readings of a header -/

theorem isSpace_of_range {c : Char} (h : 65 ≤ c.toNat) (h' : c.toNat ≤ 122) :
    isSpace c = false := by
  simp [isSpace]
  omega

theorem isSpace_toLower (c : Char) : isSpace c.toLower = isSpace c := by
  unfold Char.toLower
  split
  · next h =>
    have h1 : 65 ≤ c.toNat := h.1
    have h2 : c.toNat ≤ 90 := h.2
    have h32 : ('a'.val - 'A'.val).toNat = 32 := by decide
    have hsum : (c.val + ('a'.val - 'A'.val)).toNat = c.toNat + 32 := by
      rw [UInt32.toNat_add, h32]
      exact Nat.mod_eq_of_lt (by change c.toNat + 32 < _; omega)
    rw [isSpace_of_range h1 (by omega)]
    refine isSpace_of_range ?_ ?_
    · exact le_of_le_of_eq (by omega) hsum.symm
    · exact le_of_eq_of_le hsum (by omega)
  · rfl

/-- What is left of a text between its blanks. -/
theorem trimSpace_split (s : String) :
    ∃ sp sp', (∀ c ∈ sp, isSpace c = true) ∧ (∀ c ∈ sp', isSpace c = true) ∧
      s.toList = sp ++ ((trimSpace s).toList ++ sp') := by
  refine ⟨s.toList.takeWhile isSpace,
    ((s.toList.dropWhile isSpace).reverse.takeWhile isSpace).reverse,
    fun c hc => List.mem_takeWhile_imp hc,
    fun c hc => List.mem_takeWhile_imp (List.mem_reverse.mp hc), ?_⟩
  rw [trimSpace, String.toList_ofList, ← List.reverse_append,
    List.takeWhile_append_dropWhile, List.reverse_reverse, List.takeWhile_append_dropWhile]

/-- A word between blanks is what is left. -/
theorem trimSpace_word {s : String} {sp word sp' : Text} (hsp : ∀ c ∈ sp, isSpace c = true)
    (hsp' : ∀ c ∈ sp', isSpace c = true) (hne : word ≠ [])
    (hword : ∀ c ∈ word, isSpace c = false) (hs : s.toList = sp ++ (word ++ sp')) :
    (trimSpace s).toList = word := by
  have hleft : (word ++ sp').dropWhile isSpace = word ++ sp' := by
    cases word with
    | nil => exact absurd rfl hne
    | cons c word =>
      exact List.dropWhile_cons_of_neg (by simp [hword c List.mem_cons_self])
  have hright : word.reverse.dropWhile isSpace = word.reverse := by
    cases hrev : word.reverse with
    | nil => rfl
    | cons c rest =>
      have hc : c ∈ word := List.mem_reverse.mp (by rw [hrev]; exact List.mem_cons_self)
      exact List.dropWhile_cons_of_neg (by simp [hword c hc])
  have hsp'' : ∀ c ∈ sp'.reverse, isSpace c = true := fun c hc =>
    hsp' c (List.mem_reverse.mp hc)
  rw [trimSpace, String.toList_ofList, hs, List.dropWhile_append_of_pos hsp, hleft,
    List.reverse_append, List.dropWhile_append_of_pos hsp'', hright, List.reverse_reverse]

/-- The one part of a text is what trimming leaves, if that has no blank inside. -/
theorem fields_eq_singleton_iff {s : String} {word : Text} :
    fields isSpace s.toList = [word] ↔
      (trimSpace s).toList = word ∧ word ≠ [] ∧ ∀ c ∈ word, isSpace c = false := by
  constructor
  · intro h
    obtain ⟨hne, hword, sp, sp', hsp, hsp', hs⟩ := eq_of_fields_eq_singleton h
    exact ⟨trimSpace_word hsp hsp' hne hword hs, hne, hword⟩
  · rintro ⟨rfl, hne, hword⟩
    obtain ⟨sp, sp', hsp, hsp', hs⟩ := trimSpace_split s
    rw [hs, fields_blanks_append hsp]
    cases sp' with
    | nil => rw [List.append_nil, fields_word hne hword]
    | cons b rest =>
      rw [fields_word_append hne hword (hsp' b List.mem_cons_self),
        fields_blanks fun c hc => hsp' c (List.mem_cons_of_mem _ hc)]

/-- A header that starts with the scheme and a blank. -/
theorem scheme_split {text : Text} (h : equalFold (text.take 7) "bearer ".toList = true) :
    ∃ scheme b rest, text = scheme ++ b :: rest ∧ text.drop 7 = rest ∧ scheme ≠ [] ∧
      equalFold scheme "bearer".toList = true ∧ (∀ c ∈ scheme, isSpace c = false) ∧
      isSpace b = true := by
  have hfold : (text.take 7).map Char.toLower = "bearer".toList ++ [' '] := beq_iff_eq.mp h
  obtain ⟨scheme, tail, htake, hscheme, htail⟩ := List.map_eq_append_iff.mp hfold
  obtain ⟨b, rfl, hb⟩ := List.map_eq_singleton_iff.mp htail
  have hall : "bearer".toList.all (fun d => !isSpace d) = true := by decide
  have hplain : ∀ d ∈ "bearer".toList, isSpace d = false := by
    intro d hd
    simpa using List.all_eq_true.mp hall d hd
  refine ⟨scheme, b, text.drop 7, ?_, rfl, ?_, beq_iff_eq.mpr hscheme, fun c hc => ?_, ?_⟩
  · rw [List.append_cons, ← htake, List.take_append_drop]
  · rintro rfl
    cases hscheme
  · rw [← isSpace_toLower]
    refine hplain _ ?_
    rw [← hscheme]
    exact List.mem_map_of_mem hc
  · rw [← isSpace_toLower, hb]
    rfl

/-- The gateway takes the only part after the scheme. -/
theorem bearerValue_eq_some {header : String} {scheme rest token : Text}
    (hfields : fields isSpace header.toList = scheme :: fields isSpace rest)
    (hscheme : equalFold scheme "bearer".toList = true) :
    bearerValue header = some token ↔ fields isSpace rest = [token] := by
  unfold bearerValue
  rw [hfields]
  cases fields isSpace rest with
  | nil => exact ⟨nofun, nofun⟩
  | cons word more =>
    cases more with
    | nil =>
      dsimp only
      rw [if_pos hscheme, Option.some.injEq, List.cons.injEq]
      exact (and_iff_left rfl).symm
    | cons word' more => exact ⟨nofun, nofun⟩

/-- The API takes what trimming leaves after the scheme. -/
theorem bearerHeader_eq_some {header : String} {token : Text}
    (hfold : equalFold (header.toList.take 7) "bearer ".toList = true) :
    bearerHeader header = some token ↔
      (trimSpace (.ofList (header.toList.drop 7))).toList = token ∧ token ≠ [] := by
  have hnone : ∀ left : Text, left = [] → (none = some token ↔ left = token ∧ token ≠ []) := by
    rintro left rfl
    constructor
    · exact nofun
    · rintro ⟨rfl, h⟩
      exact absurd rfl h
  unfold bearerHeader
  dsimp only
  rw [hfold]
  by_cases hlen : header.toList.length ≤ 7
  · rw [if_pos (.inl hlen)]
    refine hnone _ ?_
    rw [List.drop_eq_nil_of_le hlen]
    rfl
  · rw [if_neg (fun h => h.elim hlen nofun)]
    split
    · exact hnone _ ‹_›
    · next hsome =>
      rw [Option.some.injEq]
      constructor
      · rintro rfl
        exact ⟨rfl, hsome⟩
      · exact And.left

/-- **The doors agree.** What the API reads as a token, and that has no blank inside, is what
the gateway reads from the same header; and what the gateway reads, the API reads too, if the
scheme stands first and is followed by a space. -/
theorem bearer_readings_agree (header : String) (token : Text) :
    (bearerHeader header = some token ∧ ∀ c ∈ token, isSpace c = false) ↔
      (bearerValue header = some token ∧
        equalFold (header.toList.take 7) "bearer ".toList = true) := by
  cases hfold : equalFold (header.toList.take 7) "bearer ".toList with
  | false =>
    have hnone : bearerHeader header = none := if_pos (.inr hfold)
    rw [hnone]
    exact ⟨fun h => absurd h.1 nofun, fun h => absurd h.2 nofun⟩
  | true =>
    obtain ⟨scheme, b, rest, htext, hdrop, hne, hscheme, hplain, hb⟩ := scheme_split hfold
    have hfields : fields isSpace header.toList = scheme :: fields isSpace rest := by
      rw [htext, fields_word_append hne hplain hb]
    -- both come down to the part of the header after the scheme
    have hkey := @fields_eq_singleton_iff (.ofList rest) token
    rw [String.toList_ofList] at hkey
    rw [bearerHeader_eq_some hfold, bearerValue_eq_some hfields hscheme, hdrop, hkey, and_assoc]
    exact (and_iff_left rfl).symm

/-- A token that the service issues has no blank in it. -/
theorem issue_plain [TokenLib] (m : TokenManager) (now : Int) (username : String)
    (roles : List Role) : ∀ c ∈ (m.issue now username roles).1, isSpace c = false := by
  have hplain : ∀ n < 64, isSpace (char64 n) = false := by decide +kernel
  have hencoded : ∀ (bytes : Bytes), ∀ c ∈ encode64 bytes, isSpace c = false := by
    intro bytes c hc
    obtain ⟨n, hn, rfl⟩ := mem_encode64 bytes hc
    exact hplain n hn
  have hdot : isSpace '.' = false := by decide
  intro c hc
  unfold TokenManager.issue at hc
  simp only [List.mem_append, List.mem_cons] at hc
  rcases hc with (hc | rfl | hc) | rfl | hc
  · exact hencoded _ c hc
  · exact hdot
  · exact hencoded _ c hc
  · exact hdot
  · exact hencoded _ c hc

/-- The API reads it from a header. -/
theorem bearerHeader_issue [TokenLib] (m : TokenManager) (now : Int) (username : String)
    (roles : List Role) :
    bearerHeader (.ofList ("Bearer ".toList ++ (m.issue now username roles).1)) =
      some (m.issue now username roles).1 := by
  have hne : (m.issue now username roles).1 ≠ [] := by simp [TokenManager.issue]
  have hlength : "Bearer ".toList.length = 7 := rfl
  rw [bearerHeader_eq_some]
  · refine ⟨?_, hne⟩
    rw [String.toList_ofList, List.drop_left' hlength]
    refine trimSpace_word (fun _ hc => absurd hc List.not_mem_nil)
      (fun _ hc => absurd hc List.not_mem_nil) hne (issue_plain m now username roles) ?_
    rw [String.toList_ofList, List.nil_append, List.append_nil]
  · rw [String.toList_ofList, List.take_left' hlength]
    decide

/-! ## Roles and permissions -/

/-- An operator or an administrator. -/
def Identity.Operates (id : Identity) : Prop := roleOperator ∈ id.roles ∨ roleAdmin ∈ id.roles

/-- The permissions that change the queue. -/
def Permission.writes : Permission → Bool
  | .queuesWrite | .jobsWrite | .dlqWrite | .delayedWrite => true
  | _ => false

theorem mem_permissionsForRoles {roles : List Role} {perm : Permission} :
    perm ∈ permissionsForRoles roles ↔
      ∃ r ∈ roles, perm ∈ (rolePermissions r).getD [] := by
  unfold permissionsForRoles
  rw [(List.perm_insertionSort _ _).mem_iff, List.mem_dedup, List.mem_flatMap]

/-- A permission that changes the queue comes with the role of an operator or an
administrator, and either role comes with all of them. -/
theorem can_writes_iff {name : String} {roles : List Role} {perm : Permission}
    (hperm : perm.writes = true) :
    (identityFor name roles).can perm = true ↔ (identityFor name roles).Operates := by
  have hviewer : perm ∉ viewerPermissions := by cases perm <;> first | decide | cases hperm
  have hoperator : perm ∈ operatorPermissions := by cases perm <;> decide
  have hrole : ∀ r : Role, perm ∈ (rolePermissions r).getD [] ↔
      r = roleOperator ∨ r = roleAdmin := by
    intro r
    unfold rolePermissions
    split
    · next hr =>
      subst hr
      exact ⟨fun h => absurd h hviewer, fun h => absurd h (by decide)⟩
    · split
      · next hr => exact ⟨fun _ => .inl hr, fun _ => hoperator⟩
      · next hr =>
        split
        · next hr' => exact ⟨fun _ => .inr hr', fun _ => hoperator⟩
        · next hr' => exact ⟨fun h => absurd h List.not_mem_nil, fun h => absurd h (by simp [hr, hr'])⟩
  unfold Identity.can Identity.Operates identityFor
  dsimp only
  rw [List.contains_iff_mem, mem_permissionsForRoles]
  constructor
  · rintro ⟨r, hr, hmem⟩
    rcases (hrole r).mp hmem with rfl | rfl
    · exact .inl hr
    · exact .inr hr
  · rintro (hr | hr)
    · exact ⟨_, hr, (hrole _).mpr (.inl rfl)⟩
    · exact ⟨_, hr, (hrole _).mpr (.inr rfl)⟩

/-- The handler changes the queue. -/
def Order.changes : Order → Bool
  | .nothing => false
  | _ => true

/-- Every route that changes the queue is behind a permission to do so. -/
theorem gate_of_changes {e : Endpoint} (h : e.order.changes = true) :
    ∃ perm, e.gate = .permission perm ∧ perm.writes = true := by
  cases e <;> first | exact ⟨_, rfl, rfl⟩ | cases h

section

variable [TokenLib] {svc : Service} {now : Int}

/-- A verified identity has the permissions of its roles. -/
theorem verifyToken_identity {token : Text} {id : Identity}
    (h : svc.verifyToken now token = .ok id) : ∃ name roles, id = identityFor name roles := by
  unfold Service.verifyToken at h
  split at h
  · cases h
  · split at h
    · exact ⟨_, _, (Except.ok.inj h).symm⟩
    · dsimp only at h
      split at h
      · cases h
      · exact ⟨_, _, (Except.ok.inj h).symm⟩

theorem authenticate_identity {header : String} {id : Identity}
    (h : authenticate svc now header = some id) : ∃ name roles, id = identityFor name roles := by
  unfold authenticate at h
  split at h
  · cases h
  · split at h
    · cases h
    · next hverify =>
      obtain rfl := Option.some.inj h
      exact verifyToken_identity hverify

theorem authenticate_eq_some {header : String} {token : Text} {id : Identity}
    (hheader : bearerHeader header = some token) (hverify : svc.verifyToken now token = .ok id) :
    authenticate svc now header = some id := by
  unfold authenticate
  rw [hheader]
  dsimp only
  rw [hverify]

/-- A request with the permission of its route is admitted. -/
theorem allow_eq_ok {r : ApiRequest} {e : Endpoint} {perm : Permission} {id : Identity}
    (hroute : route r = some e) (hgate : e.gate = .permission perm)
    (hauth : authenticate svc now r.authorization = some id) (hcan : id.can perm = true) :
    allow svc now r = .ok e.order := by
  unfold allow
  rw [hroute]
  dsimp only
  rw [hgate]
  unfold Gate.require
  rw [hauth]
  dsimp only
  rw [if_pos hcan]

/-- Which requests change the queue. -/
def changesQueue (svc : Service) (now : Int) (r : ApiRequest) : Bool :=
  match allow svc now r with
  | .ok order => order.changes
  | .error _ => false

/-- Those of operators and administrators to a route that does. -/
theorem changesQueue_iff {r : ApiRequest} :
    changesQueue svc now r = true ↔
      (∃ e, route r = some e ∧ e.order.changes = true) ∧
        ∃ id, authenticate svc now r.authorization = some id ∧ id.Operates := by
  unfold changesQueue allow
  cases hroute : route r with
  | none => simp
  | some e =>
    dsimp only
    cases hchanges : e.order.changes with
    | false =>
      constructor
      · intro h
        exfalso
        cases hreq : e.gate.require svc now r.authorization with
        | error refusal => simp [hreq] at h
        | ok u => simp [hreq, hchanges] at h
      · rintro ⟨⟨e', he', h⟩, -⟩
        obtain rfl := Option.some.inj he'
        rw [hchanges] at h
        cases h
    | true =>
      obtain ⟨perm, hgate, hperm⟩ := gate_of_changes hchanges
      rw [hgate]
      unfold Gate.require
      cases hauth : authenticate svc now r.authorization with
      | none => simp
      | some id =>
        obtain ⟨name, roles, rfl⟩ := authenticate_identity hauth
        have hcan := @can_writes_iff name roles perm hperm
        by_cases hop : (identityFor name roles).Operates
        · simp [hcan.mpr hop, hchanges, hop]
        · have hno : (identityFor name roles).can perm = false :=
            Bool.eq_false_of_not_eq_true fun h => hop (hcan.mp h)
          simp [hno, hop]

/-- The calls that enqueue a task: those of operators and administrators to the one method
there is, with a task type. -/
theorem allowRpc_iff {c : Rpc} :
    allowRpc svc now c = .ok () ↔
      c.method = "/queue.v1.QueueService/EnqueueTask" ∧ c.args.taskType ≠ "" ∧
        ∃ token id, bearerToken c.metadata = .ok token ∧ svc.verifyToken now token = .ok id ∧
          id.Operates := by
  unfold allowRpc intercept methodPermissions
  cases htoken : bearerToken c.metadata with
  | error refusal => simp
  | ok token =>
    dsimp only
    cases hverify : svc.verifyToken now token with
    | error e => simp [hverify]
    | ok id =>
      obtain ⟨name, roles, rfl⟩ := verifyToken_identity hverify
      have hcan := @can_writes_iff name roles .queuesWrite rfl
      by_cases hmethod : c.method = "/queue.v1.QueueService/EnqueueTask"
      · by_cases hop : (identityFor name roles).Operates
        · simp [hmethod, hcan.mpr hop, hverify, hop]
        · have hno : (identityFor name roles).can .queuesWrite = false :=
            Bool.eq_false_of_not_eq_true fun h => hop (hcan.mp h)
          simp [hmethod, hno, hverify, hop]
      · simp [hmethod]

end

/-! ## Runs -/

section

variable {Body : Type}

/-- A command of a worker or a reconciler. -/
def Op.internal : Op Body → Bool
  | .claimBatch _ _ | .heartbeat _ _ _ | .ackBatch _ | .requeueOrDead _ _ _ _
  | .promoteTask _ | .materialize _ _ _ => true
  | _ => false

/-- Behind the doors are only workers and reconcilers. -/
def Internal (_ : Front Body) : FrontAct Body → Prop
  | .engine c => c.op.internal = true
  | _ => True

variable [TokenLib]

/-- What can have an effect on the queue, now or later. -/
def FrontAct.effective (svc : Service) : FrontAct Body → Bool
  | .http _ now r => changesQueue svc now r
  | .rpc _ now c => (allowRpc svc now c).isOk
  | _ => true

variable [BodyCodec Body] [DecidableEq Body]

theorem Front.step_refused {svc : Service} {f : Front Body} {k : ℕ} {now : Int} {r : ApiRequest}
    {refusal : Refusal} (h : allow svc now r = .error refusal) :
    f.step svc (.http k now r) = some f := by
  simp only [Front.step, h]

theorem Front.step_admitted {svc : Service} {f : Front Body} {k : ℕ} {now : Int}
    {r : ApiRequest} {order : Order} (h : allow svc now r = .ok order) :
    f.step svc (.http k now r) = (order.take k f.desk).map fun d => { f with desk := d } := by
  simp only [Front.step, h]

/-- The rest has none. -/
theorem Front.step_ineffective {svc : Service} {f f' : Front Body} {a : FrontAct Body}
    (h : a.effective svc = false) (hst : f.step svc a = some f') : f' = f := by
  cases a with
  | http k now r =>
    simp only [FrontAct.effective, changesQueue] at h
    simp only [Front.step] at hst
    split at hst
    · exact (Option.some.inj hst).symm
    · next order hallow =>
      rw [hallow] at h
      cases order with
      | nothing => exact (Option.some.inj hst).symm
      | setPaused on => cases h
      | demand wanted => cases h
  | rpc k now c =>
    simp only [FrontAct.effective] at h
    simp only [Front.step] at hst
    split at hst
    · exact (Option.some.inj hst).symm
    · next hallow =>
      rw [hallow] at h
      cases h
  | engine c => cases h
  | next k => cases h
  | write k now clock => cases h

theorem front_run_filter {svc : Service} {ok : Front Body → FrontAct Body → Prop}
    {acts : List (FrontAct Body)} {f f' : Front Body} (hrun : FrontRun svc ok f acts f') :
    FrontRun svc ok f (acts.filter (·.effective svc)) f' := by
  induction hrun with
  | nil => exact .nil
  | @cons _ a _ _ _ hok hst _ ih =>
    cases h : a.effective svc with
    | true =>
      rw [List.filter_cons_of_pos h]
      exact .cons hok hst ih
    | false =>
      rw [List.filter_cons_of_neg (by simp [h])]
      rwa [Front.step_ineffective h hst] at ih

/-- **Only operators change the queue.** Take any requests and calls, with any headers, in any
order among the commands of workers and reconcilers: the queue is the one that the requests
to a writing route and the `EnqueueTask` calls of operators and administrators make, and the
others might as well not have come. -/
theorem only_operators_change_queue (svc : Service) {acts : List (FrontAct Body)}
    {f : Front Body} (hrun : FrontRun svc Internal .init acts f) :
    ∃ kept, kept.Sublist acts ∧ FrontRun svc Internal .init kept f ∧
      (∀ k now r, .http k now r ∈ kept ↔ .http k now r ∈ acts ∧
        (∃ e, route r = some e ∧ e.order.changes = true) ∧
        ∃ id, authenticate svc now r.authorization = some id ∧ id.Operates) ∧
      (∀ k now c, .rpc k now c ∈ kept ↔ .rpc k now c ∈ acts ∧
        c.method = "/queue.v1.QueueService/EnqueueTask" ∧ c.args.taskType ≠ "" ∧
        ∃ token id, bearerToken c.metadata = .ok token ∧ svc.verifyToken now token = .ok id ∧
          id.Operates) := by
  refine ⟨acts.filter (·.effective svc), List.filter_sublist, front_run_filter hrun,
    fun k now r => ?_, fun k now c => ?_⟩
  · rw [List.mem_filter, ← changesQueue_iff]
    rfl
  · rw [List.mem_filter, ← allowRpc_iff]
    refine and_congr_right fun _ => ?_
    change (allowRpc svc now c).isOk = true ↔ _
    cases allowRpc svc now c with
    | error refusal => exact ⟨nofun, nofun⟩
    | ok u => exact ⟨fun _ => rfl, fun _ => rfl⟩

end

/-- A header with a token of the administrator. -/
def rootHeader : String :=
  .ofList ("Bearer ".toList ++ (rootService.tokens.issue 0 "root" [roleAdmin]).1)

/-- Two requests to pause the queue, the first without a token. -/
def pauseRequests : List (FrontAct JsonBody) :=
  [.http 0 0 ⟨"POST", ["api", "queues", "default", "pause"], ""⟩,
    .http 1 0 ⟨"POST", ["api", "queues", "default", "pause"], rootHeader⟩]

theorem authenticate_rootHeader :
    authenticate rootService 0 rootHeader = some (identityFor "root" [roleAdmin]) := by
  have hverify : rootService.tokens.verify 0
      (rootService.tokens.issue 0 "root" [roleAdmin]).1 =
        .ok ⟨"root", [roleAdmin], unix 0, unix (0 + rootService.tokens.ttl)⟩ := by
    rw [TokenManager.verify_issue, if_neg (by decide), if_neg (by decide)]
  have huser : rootService.users "root" = some rootUser := rfl
  have hheader : bearerHeader rootHeader =
      some (rootService.tokens.issue 0 "root" [roleAdmin]).1 := by
    unfold rootHeader
    exact bearerHeader_issue _ _ _ _
  refine authenticate_eq_some hheader ?_
  rw [Service.verifyToken_of_ok hverify]
  dsimp only
  rw [huser]
  rfl

/-- The second one pauses the queue. -/
theorem only_operators_change_queue_pause :
    ∃ f, FrontRun rootService Internal .init pauseRequests f ∧ f.desk.redis.paused = true ∧
      ∃ kept, kept.Sublist pauseRequests ∧ FrontRun rootService Internal .init kept f ∧
        (∀ k now r, .http k now r ∈ kept ↔ .http k now r ∈ pauseRequests ∧
          (∃ e, route r = some e ∧ e.order.changes = true) ∧
          ∃ id, authenticate rootService now r.authorization = some id ∧ id.Operates) := by
  have hnobody : allow rootService 0 ⟨"POST", ["api", "queues", "default", "pause"], ""⟩ =
      .error .unauthorized := by
    rfl
  have hroot := allow_eq_ok (r := ⟨"POST", ["api", "queues", "default", "pause"], rootHeader⟩)
    (e := .pauseQueue "default") rfl rfl authenticate_rootHeader
    ((can_writes_iff rfl).mpr (.inr List.mem_cons_self))
  let f : Front JsonBody := ⟨⟨{ Redis.empty with paused := true }, nothing⟩, nothing⟩
  have hrun : FrontRun rootService Internal .init pauseRequests f :=
    .cons trivial (Front.step_refused hnobody) <|
      .cons trivial ((Front.step_admitted hroot).trans rfl) .nil
  obtain ⟨kept, hsub, hkept, hhttp, -⟩ := only_operators_change_queue rootService hrun
  exact ⟨f, hrun, rfl, kept, hsub, hkept, hhttp⟩

end ForgeQueue
