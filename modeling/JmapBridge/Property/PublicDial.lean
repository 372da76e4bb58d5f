import JmapBridge.Model.Net

/-! The addresses that a fetch dials. A connection looks its host up once more after the
check, so the fetch is safe as long as the resolver stands by what it told the check. -/

namespace JmapBridge

open Effect

variable {Url : Type} {parser : UrlParser Url} {calls : Nat → FetchCall} {t : Nat}

/-- The address to which a connection was opened. -/
def NetRecord.dials (r : NetRecord Url) : Option IpAddr :=
  match r.answer with
  | .connected _ ip _ => some ip
  | _ => none

/-- What the resolver told task `t` of the name `host`. -/
def NetRecord.resolves (t : Nat) (host : String) (r : NetRecord Url) : Option (List IpAddr) :=
  match r.cmd, r.answer with
  | .lookupHost name _, .addresses ips => if r.task = t ∧ name = host then some ips else none
  | _, _ => none

/-- What the resolver last told task `t` of the name `host`. -/
def lastTold (t : Nat) (host : String) (l : List (NetRecord Url)) : Option (List IpAddr) :=
  l.findSome? (NetRecord.resolves t host)

/-- What the resolver had last told of the host that a request asks. -/
def NetRecord.told (parser : UrlParser Url) (r : NetRecord Url) (l : List (NetRecord Url)) :
    Option (List IpAddr) :=
  match r.cmd with
  | .get url => (parser.hostStr url).bind fun host => lastTold r.task host l
  | _ => none

/-- Every connection was opened to a public address. -/
def AllPublic : List (NetRecord Url) → Prop
  | [] => True
  | r :: l => (∀ ip ∈ r.dials, isPublic ip = true) ∧ AllPublic l

/-- The resolver rebound no name: where it had told of the host, it brings up no other
address at the connection that is not public and is dialled. -/
def NotRebound (parser : UrlParser Url) : List (NetRecord Url) → Prop
  | [] => True
  | r :: l => (∀ ips ∈ r.told parser l, ∀ ip ∈ r.dials, ip ∉ ips → isPublic ip = true) ∧
      NotRebound parser l

instance decidableAllPublic : ∀ l : List (NetRecord Url), Decidable (AllPublic l)
  | [] => .isTrue trivial
  | r :: l =>
    have := decidableAllPublic l
    inferInstanceAs (Decidable ((∀ ip ∈ r.dials, isPublic ip = true) ∧ AllPublic l))

instance decidableNotRebound (parser : UrlParser Url) :
    ∀ l : List (NetRecord Url), Decidable (NotRebound parser l)
  | [] => .isTrue trivial
  | r :: l =>
    have := decidableNotRebound parser l
    inferInstanceAs (Decidable
      ((∀ ips ∈ r.told parser l, ∀ ip ∈ r.dials, ip ∉ ips → isPublic ip = true) ∧
        NotRebound parser l))

/-- Every connection was opened after the resolver had told public addresses of its host. -/
def Guarded (parser : UrlParser Url) : List (NetRecord Url) → Prop
  | [] => True
  | r :: l => (r.dials.isSome → ∃ ips ∈ r.told parser l, ∀ ip ∈ ips, isPublic ip = true) ∧
      Guarded parser l

theorem allPublic_iff {l : List (NetRecord Url)} (h : Guarded parser l) :
    AllPublic l ↔ NotRebound parser l := by
  induction l with
  | nil => exact Iff.rfl
  | cons r l ih =>
    constructor
    · rintro ⟨hr, hl⟩
      exact ⟨fun _ _ ip hip _ => hr ip hip, (ih h.2).mp hl⟩
    · rintro ⟨hr, hl⟩
      refine ⟨fun ip hip => ?_, (ih h.2).mpr hl⟩
      have hsome : r.dials.isSome := Option.isSome_iff_exists.mpr ⟨ip, hip⟩
      obtain ⟨ips, htold, hpublic⟩ := h.1 hsome
      by_cases hmem : ip ∈ ips
      · exact hpublic ip hmem
      · exact hr ips htold ip hip hmem

theorem lastTold_cons_ne {c : NetCmd Url} {a : NetAnswer} {l : List (NetRecord Url)} {i : Nat}
    {host : String} (hit : i ≠ t) : lastTold i host (⟨t, c, a⟩ :: l) = lastTold i host l := by
  have hnone : NetRecord.resolves i host ⟨t, c, a⟩ = none := by
    unfold NetRecord.resolves
    split
    · simp [Ne.symm hit]
    · rfl
  simp [lastTold, hnone]

theorem lastTold_lookup {host : String} {port : Nat} {ips : List IpAddr}
    {l : List (NetRecord Url)} :
    lastTold t host (⟨t, .lookupHost host port, .addresses ips⟩ :: l) = some ips := by
  simp [lastTold, NetRecord.resolves]

theorem dials_of_run {c : NetCmd Url} {a : NetAnswer} {b : c.Ans} (h : c.run a = some b)
    (hd : (NetRecord.mk t c a).dials.isSome) : ∃ url, c = .get url := by
  cases c with
  | get url => exact ⟨url, rfl⟩
  | buildClient =>
    cases a with
    | connected => cases h
    | _ => cases hd
  | lookupHost host port =>
    cases a with
    | connected => cases h
    | _ => cases hd

def netContract (parser : UrlParser Url) : Contract (NetWorld Url) where
  inv w := Guarded parser w.trace
  rely t w w' := ∀ host, lastTold t host w'.trace = lastTold t host w.trace
  refl _ _ _ := rfl
  trans h h' host := (h' host).trans (h host)

/-- The resolver last told task `t` public addresses of the host of `url`. -/
def Passed (parser : UrlParser Url) (t : Nat) (url : Url) (w : NetWorld Url) : Prop :=
  ∃ host, parser.hostStr url = some host ∧
    ∃ ips, lastTold t host w.trace = some ips ∧ ∀ ip ∈ ips, isPublic ip = true

theorem Passed.stable {url : Url} : Stable (netContract parser) t (Passed parser t url) := by
  rintro w w' ⟨host, hhost, ips, htold, hpublic⟩ hr _
  have hsame : lastTold t host w'.trace = lastTold t host w.trace := hr host
  exact ⟨host, hhost, ips, hsame.trans htold, hpublic⟩

abbrev NetTriple (parser : UrlParser Url) (calls : Nat → FetchCall) (t : Nat)
    (P : NetWorld Url → Prop)
    (p : Prog (NetOp Url) α) (Q : α → NetWorld Url → Prop) : Prop :=
  Triple (netSystem parser calls) {} (netContract parser) t P p Q

theorem calm_step {c : NetCmd Url} {R : c.Ans → NetWorld Url → Prop} (hc : ∀ url, c ≠ .get url)
    (hR : ∀ (w : NetWorld Url) a b, c.run a = some b → R b ⟨⟨t, c, a⟩ :: w.trace⟩) :
    Step (netSystem parser calls) {} (netContract parser) t (fun _ => True) (.mk c) R := by
  intro w a b w' hi _ _ hexec
  have h : netExec t (.mk c) a w = some (b, w') := hexec
  obtain ⟨hrun, rfl⟩ := netExec_mk h
  refine ⟨⟨fun hd => ?_, hi⟩, fun i hit _ => lastTold_cons_ne hit, hR w a b hrun⟩
  obtain ⟨url, rfl⟩ := dials_of_run hrun hd
  exact absurd rfl (hc url)

theorem get_net_step {url : Url} : Step (netSystem parser calls) {} (netContract parser) t
    (Passed parser t url) (.mk (.get url)) fun _ _ => True := by
  intro w a b w' hi hw _ hexec
  have h : netExec t (.mk (.get url)) a w = some (b, w') := hexec
  obtain ⟨-, rfl⟩ := netExec_mk h
  obtain ⟨host, hhost, ips, htold, hpublic⟩ := hw
  have hknown : (NetRecord.mk t (.get url) a).told parser w.trace = some ips := by
    simp [NetRecord.told, hhost, htold]
  exact ⟨⟨fun _ => ⟨ips, hknown, hpublic⟩, hi⟩, fun i hit _ => lastTold_cons_ne hit, trivial⟩

/-- The postcondition of the fetches, of which only the success says something. -/
abbrev Fetched (R : NetWorld Url → Prop) : Except Err α → NetWorld Url → Prop :=
  Effect.post (fun _ => R) fun _ _ => True

theorem fail_triple {P R : NetWorld Url → Prop} {e : Err} (hP : Stable (netContract parser) t P) :
    NetTriple parser calls t P (Act.fail e : Fetch Url α) (Fetched R) :=
  Triple.fail hP fun _ _ _ => trivial

theorem assertPublicUrl_triple {url : Url} :
    NetTriple parser calls t (fun _ => True) (assertPublicUrl parser url)
      (Fetched (Passed parser t url)) := by
  unfold assertPublicUrl
  split
  case isFalse => exact fail_triple (Stable.const True)
  case isTrue =>
    split
    case h_1 => exact fail_triple (Stable.const True)
    case h_2 host hhost =>
      have hlookup :
          ∀ port, NetTriple parser calls t (fun _ => True) (onNet (.lookupHost host port))
          fun found w => ∀ ips, found = some ips → lastTold t host w.trace = some ips := by
        refine fun port =>
          .call (Stable.const True) (calm_step (by simp) fun w a b hrun ips hb => ?_)
          fun found w w' h hr _ ips hb => ?_
        · subst hb
          rw [run_lookupHost hrun]
          exact lastTold_lookup
        · have hsame : lastTold t host w'.trace = lastTold t host w.trace := hr host
          exact hsame.trans (h ips hb)
      have hstable : ∀ found, Stable (netContract parser) t fun w =>
          ∀ ips, found = some ips → lastTold t host w.trace = some ips := by
        intro found w w' h hr _ ips hb
        have hsame : lastTold t host w'.trace = lastTold t host w.trace := hr host
        exact hsame.trans (h ips hb)
      refine .andThen (.lift (hlookup _) hstable) (fun _ => Stable.const True) fun found => ?_
      cases found with
      | none => exact fail_triple (hstable none)
      | some ips =>
        dsimp only [ensurePublic]
        split
        case isFalse => exact fail_triple (hstable (some ips))
        case isTrue hall =>
          split
          case isTrue => exact fail_triple (hstable (some ips))
          case isFalse =>
            refine .ok (hstable (some ips)) fun w _ h => ⟨host, hhost, ips, h ips rfl, ?_⟩
            exact List.all_eq_true.mp hall

theorem nextUrl_triple {url : Url} {response : Response} :
    NetTriple parser calls t (fun _ => True) (nextUrl parser url response)
      (Fetched fun _ => True) := by
  unfold nextUrl
  split
  · exact fail_triple (Stable.const True)
  · cases hjoin : parser.join url _ with
    | none => exact fail_triple (Stable.const True)
    | some next => exact .ok (Stable.const True) fun _ _ _ => trivial

theorem getFollowing_triple (n : Nat) (url : Url) :
    NetTriple parser calls t (fun _ => True) (getFollowing parser n url)
      (Fetched fun _ => True) := by
  induction n generalizing url with
  | zero => exact fail_triple (Stable.const True)
  | succ n ih =>
    have hget : NetTriple parser calls t (Passed parser t url)
        (Act.call (.mk (.get url)) : Fetch Url Response) (Fetched fun _ => True) := by
      refine .post (.call Passed.stable get_net_step fun _ => Stable.const True) fun r w _ _ => ?_
      cases r <;> trivial
    refine .andThen assertPublicUrl_triple (fun _ => Stable.const True) fun _ => ?_
    refine .andThen hget (fun _ => Stable.const True) fun response => ?_
    split
    case isTrue => exact .andThen nextUrl_triple (fun _ => Stable.const True) fun next => ih next
    case isFalse => exact .ok (Stable.const True) fun _ _ _ => trivial

theorem safeGet_triple {url : String} {maxRedirects : UInt8} :
    NetTriple parser calls t (fun _ => True) (safeGet parser url maxRedirects)
      (Fetched fun _ => True) := by
  have hbuild : NetTriple parser calls t (fun _ => True) (onNet .buildClient) fun _ _ => True :=
    .call (Stable.const True)
      (calm_step (by simp) fun _ _ _ _ => trivial) fun _ => Stable.const True
  refine .andThen (.lift hbuild fun _ => Stable.const True) (fun _ => Stable.const True)
    fun built => ?_
  cases built with
  | false => exact fail_triple (Stable.const True)
  | true =>
    cases hparse : parser.parse url with
    | none =>
      refine .andThen (R := fun _ _ => True) ?_ (fun _ => Stable.const True) fun first =>
        getFollowing_triple _ first
      exact fail_triple (Stable.const True)
    | some first =>
      refine .andThen (R := fun _ _ => True) ?_ (fun _ => Stable.const True) fun first =>
        getFollowing_triple _ first
      exact .ok (Stable.const True) fun _ _ _ => trivial

theorem net_upholds (parser : UrlParser Url) (calls : Nat → FetchCall) :
    Upholds (netSystem parser calls) {} (netContract parser) where
  start t w hi _ _ :=
    Triple.bind safeGet_triple (fun r => Triple.pure (P := Fetched (fun _ => True) r)
      (by cases r <;> exact Stable.const True) fun _ _ _ => trivial) w hi trivial
  env e := e.elim
  cancel t w hi _ := ⟨hi, fun i _ _ => rfl, trivial⟩

/-- Whatever the URLs, the redirects and the resolver: in every run the fetches dial public
addresses only, exactly if the resolver rebinds no name behind a check. -/
theorem allPublic_iff_notRebound {es : List (Event NetAnswer Empty)}
    {q : Pool (NetOp Url) (NetWorld Url)}
    (hrun : (netSystem parser calls).run es (Pool.boot {}) = some q) :
    AllPublic q.world.trace ↔ NotRebound parser q.world.trace := by
  have hfresh : (netContract parser).inv {} := trivial
  have hguarded : Guarded parser q.world.trace := (net_upholds parser calls).inv_of_run hfresh
    (fun _ => trivial) hrun (System.admits_free es _)
  exact allPublic_iff hguarded

/-- Absolute `http` URLs without a port, known by their hosts. -/
def plainParser : UrlParser String where
  parse s := hostOf s
  join _ s := hostOf s
  scheme _ := "http"
  hostStr := some
  portOrKnownDefault _ := some 80
where
  hostOf (s : String) : Option String :=
    match s.toList with
    | 'h' :: 't' :: 't' :: 'p' :: ':' :: '/' :: '/' :: rest =>
      some (String.ofList (rest.takeWhile (· != '/')))
    | _ => none

def fetchesImage (_ : Nat) : FetchCall := ⟨"http://images.example/pixel.png", 3⟩

def example₁ : IpAddr := .v4 ⟨93, 184, 216, 34⟩

def example₂ : IpAddr := .v4 ⟨1, 1, 1, 1⟩

def localhost : IpAddr := .v4 ⟨127, 0, 0, 1⟩

/-- A redirect to another public host. -/
def redirectedRun : List (Event NetAnswer Empty) :=
  [.start 0, .step 0 .done, .step 0 (.addresses [example₁]),
    .step 0 (.connected [example₁] example₁ (some ⟨302, some "http://other.example/"⟩)),
    .step 0 (.addresses [example₂]), .step 0 (.connected [example₂] example₂ (some ⟨200, none⟩))]

theorem allPublic_iff_notRebound_redirected : ∃ q,
    (netSystem plainParser fetchesImage).run redirectedRun (Pool.boot {}) = some q ∧
      q.world.trace.length = 5 ∧ AllPublic q.world.trace := by
  have hends : ((netSystem plainParser fetchesImage).run redirectedRun (Pool.boot {})).map (fun q =>
      (q.world.trace.length, decide (NotRebound plainParser q.world.trace))) = some (5, true) := by
    decide +kernel
  obtain ⟨q, hq, hstate⟩ := Option.map_eq_some_iff.mp hends
  obtain ⟨hlength, hsteady⟩ := Prod.mk.inj hstate
  exact ⟨q, hq, hlength, (allPublic_iff_notRebound hq).mpr (of_decide_eq_true hsteady)⟩

/-- The resolver answers the check with a public address and the connection with the
loopback address. -/
def reboundRun : List (Event NetAnswer Empty) :=
  [.start 0, .step 0 .done, .step 0 (.addresses [example₁]),
    .step 0 (.connected [localhost] localhost (some ⟨200, none⟩))]

theorem rebound_dials_localhost : ∃ q,
    (netSystem plainParser fetchesImage).run reboundRun (Pool.boot {}) = some q ∧
      ¬ AllPublic q.world.trace := by
  have hends : ((netSystem plainParser fetchesImage).run reboundRun (Pool.boot {})).map
      (fun q => decide (AllPublic q.world.trace)) = some false := by
    decide +kernel
  obtain ⟨q, hq, hstate⟩ := Option.map_eq_some_iff.mp hends
  exact ⟨q, hq, of_decide_eq_false hstate⟩

end JmapBridge
