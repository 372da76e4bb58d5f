import JmapBridge.Model.Permissions

/-! What a list of permission specs grants. A spec names a Matrix id, a server or everyone,
and the last spec for the most specific name decides. -/

namespace JmapBridge

open Rust Rust.Str

/-! ### Matrix ids -/

/-- A character of a host name, of an address or of a port. -/
def serverChar (c : Char) : Bool :=
  c.isAlphanum || c == '-' || c == '.' || c == ':' || c == '[' || c == ']'

/-- A host: a name, an IPv4 address, or an IPv6 address in brackets. -/
inductive Host : Str → Prop
  | name {w : Str} (hne : w ≠ []) (h : ∀ c ∈ w, c.isAlphanum ∨ c = '-' ∨ c = '.') : Host w
  | ip6 {w : Str} (h : ∀ c ∈ w, c.isAlphanum ∨ c = ':' ∨ c = '.') : Host ('[' :: (w ++ [']']))

inductive ServerName : Str → Prop
  | bare {host : Str} (h : Host host) : ServerName host
  | port {host digits : Str} (h : Host host) (hne : digits ≠ [])
      (hdigits : ∀ c ∈ digits, c.isDigit) : ServerName (host ++ ':' :: digits)

/-- A Matrix id. Its localpart may hold what the grammar allows, the wider one of older ids
included. -/
structure MatrixId where
  localpart : Str
  server : Str
  printable : ∀ c ∈ localpart, '!' ≤ c ∧ c ≤ '~' ∧ c ≠ ':'
  valid : ServerName server

def MatrixId.text (m : MatrixId) : Str := '@' :: (m.localpart ++ ':' :: m.server)

/-- What a spec may stand for. -/
inductive Key : Str → Prop
  | id (m : MatrixId) : Key m.text
  | server {s : Str} (h : ServerName s) : Key s
  | everyone : Key "*".toList

def Level.name : Level → Str
  | .user => "user".toList
  | .admin => "admin".toList

/-- A spec: its key, and a level in upper or lower case with white space around it. -/
structure Spec where
  key : Str
  word : Str
  level : Level
  names : Key key
  spells : toAsciiLowercase (Str.trim word) = level.name

def Spec.text (s : Spec) : Str := s.key ++ '=' :: s.word

/-! ### What the specs grant -/

/-- The level of the last spec with the key. -/
def lastLevel (specs : List Spec) (key : Str) : Option Level :=
  (specs.reverse.find? fun s => s.key = key).map (·.level)

def granted (specs : List Spec) (bridgeDomain : Str) (m : MatrixId) : Option Level :=
  if specs.isEmpty then if m.server = bridgeDomain then some .user else none
  else (lastLevel specs m.text).or ((lastLevel specs m.server).or (lastLevel specs "*".toList))

/-- The specs are read, and each id has the level that they grant it. -/
def MeansWhatItSays (specs : List Spec) (bridgeDomain : Str) : Prop :=
  ∃ p, Permissions.fromSpecs (specs.map Spec.text) bridgeDomain = .ok p ∧
    ∀ m : MatrixId, p.levelFor m.text = granted specs bridgeDomain m

/-! ### Characters of a key -/

theorem Host.chars {s : Str} (h : Host s) : ∀ c ∈ s, serverChar c = true := by
  cases h with
  | name _ h =>
    intro c hc
    rcases h c hc with halnum | rfl | rfl
    · simp [serverChar, halnum]
    · rfl
    · rfl
  | ip6 h =>
    intro c hc
    rcases List.mem_cons.mp hc with rfl | hc
    · rfl
    rcases List.mem_append.mp hc with hc | hc
    · rcases h c hc with halnum | rfl | rfl
      · simp [serverChar, halnum]
      · rfl
      · rfl
    · obtain rfl := List.mem_singleton.mp hc
      rfl

theorem ServerName.chars {s : Str} (h : ServerName s) : ∀ c ∈ s, serverChar c = true := by
  cases h with
  | bare h => exact h.chars
  | port h _ hdigits =>
    intro c hc
    rcases List.mem_append.mp hc with hc | hc
    · exact h.chars c hc
    rcases List.mem_cons.mp hc with rfl | hc
    · rfl
    · simp [serverChar, Char.isAlphanum, hdigits c hc]

theorem ServerName.ne_nil {s : Str} (h : ServerName s) : s ≠ [] := by
  cases h with
  | bare h =>
    cases h with
    | name hne _ => exact hne
    | ip6 _ => exact List.cons_ne_nil _ _
  | port h _ _ => simp

theorem ServerName.not_mem {s : Str} (h : ServerName s) {c : Char} (hc : serverChar c = false) :
    c ∉ s := by
  intro hmem
  rw [h.chars c hmem] at hc
  cases hc

theorem serverChar_printable {c : Char} (h : serverChar c = true) : isWhitespace c = false := by
  simp only [serverChar, Bool.or_eq_true, beq_iff_eq] at h
  rcases h with ((((halnum | rfl) | rfl) | rfl) | rfl) | rfl
  · obtain ⟨hge, hle⟩ := alphanum_range halnum
    exact not_isWhitespace_of_range (by omega) (by omega)
  all_goals decide

theorem MatrixId.not_isWhitespace (m : MatrixId) : ∀ c ∈ m.text, isWhitespace c = false := by
  intro c hc
  rcases List.mem_cons.mp hc with rfl | hc
  · decide
  rcases List.mem_append.mp hc with hc | hc
  · obtain ⟨hge, hle, -⟩ := m.printable c hc
    exact not_isWhitespace_of_range hge hle
  rcases List.mem_cons.mp hc with rfl | hc
  · decide
  · exact serverChar_printable (m.valid.chars c hc)

theorem Key.not_isWhitespace {k : Str} (h : Key k) : ∀ c ∈ k, isWhitespace c = false := by
  cases h with
  | id m => exact m.not_isWhitespace
  | server h => exact fun c hc => serverChar_printable (h.chars c hc)
  | everyone => exact forall_mem_of_all (by decide)

theorem Key.ne_nil {k : Str} (h : Key k) : k ≠ [] := by
  cases h with
  | id m => exact List.cons_ne_nil _ _
  | server h => exact h.ne_nil
  | everyone => decide

theorem MatrixId.splitOnce (m : MatrixId) :
    Str.splitOnce ':' m.text = some ('@' :: m.localpart, m.server) := by
  have hfree : ':' ∉ '@' :: m.localpart := by
    intro hmem
    rcases List.mem_cons.mp hmem with heq | hmem
    · exact absurd heq (by decide)
    · exact (m.printable ':' hmem).2.2 rfl
  exact splitOnce_append hfree m.server

theorem MatrixId.ne_server (m : MatrixId) {s : Str} (h : ServerName s) : m.text ≠ s := by
  intro heq
  exact h.not_mem (c := '@') (by decide) (heq ▸ List.mem_cons_self)

/-! ### Reading a spec -/

theorem Level.parse_word (s : Spec) : Level.parse s.word = .ok s.level := by
  rw [Level.parse, s.spells]
  cases s.level <;> rfl

theorem Level.parse_separator {w : Str} (h : '=' ∈ w) :
    Level.parse w = .error (.unknownLevel (toAsciiLowercase (Str.trim w))) := by
  have hfilter : (Str.trim w).filter (· == '=') = w.filter (· == '=') := by
    refine filter_trim (fun c hc => Bool.eq_false_iff.mpr fun heq => ?_) w
    rw [eq_of_beq heq] at hc
    cases hc
  have hmem : '=' ∈ Str.trim w := by
    have : '=' ∈ w.filter (· == '=') := List.mem_filter.mpr ⟨h, by decide⟩
    exact (List.mem_filter.mp (hfilter ▸ this)).1
  have hlower : '=' ∈ toAsciiLowercase (Str.trim w) := List.mem_map.mpr ⟨'=', hmem, by decide⟩
  have hne : ∀ v : Str, '=' ∉ v → toAsciiLowercase (Str.trim w) ≠ v :=
    fun v hv heq => hv (heq ▸ hlower)
  rw [Level.parse]
  rw [if_neg (hne _ (by decide)), if_neg (hne _ (by decide))]

theorem addSpec_free (map : LevelMap) {s : Spec} (h : '=' ∉ s.key) :
    Permissions.addSpec map s.text = .ok (map.insert s.key s.level) := by
  rw [Permissions.addSpec, Spec.text, splitOnce_append h]
  dsimp only
  rw [trim_eq_self s.names.not_isWhitespace, if_neg (by simpa using s.names.ne_nil),
    Level.parse_word]
  rfl

/-- A key with the separator in it is cut at the separator, and the rest is no level. -/
theorem addSpec_separator (map : LevelMap) {s : Spec} (h : '=' ∈ s.key) :
    ∃ e, Permissions.addSpec map s.text = .error e := by
  obtain ⟨a, b, hab, ha⟩ := List.eq_append_cons_of_mem h
  have htext : s.text = a ++ '=' :: (b ++ '=' :: s.word) := by
    rw [Spec.text, hab]
    simp
  rw [Permissions.addSpec, htext, splitOnce_append ha]
  dsimp only
  split
  · exact ⟨_, rfl⟩
  · rw [Level.parse_separator (by simp)]
    exact ⟨_, rfl⟩

/-! ### Reading the specs -/

theorem foldlM_addSpec {specs : List Spec} (h : ∀ s ∈ specs, '=' ∉ s.key) (map : LevelMap) :
    (specs.map Spec.text).foldlM Permissions.addSpec map =
      .ok (specs.foldl (fun map s => map.insert s.key s.level) map) := by
  induction specs generalizing map with
  | nil => rfl
  | cons s specs ih =>
    rw [List.map_cons, List.foldlM_cons, addSpec_free map (h s List.mem_cons_self)]
    exact ih (fun s' hs' => h s' (List.mem_cons_of_mem s hs')) _

theorem foldlM_addSpec_error {specs : List Spec} {s : Spec} (hs : s ∈ specs) (h : '=' ∈ s.key)
    (map : LevelMap) : ∃ e, (specs.map Spec.text).foldlM Permissions.addSpec map = .error e := by
  induction specs generalizing map with
  | nil => cases hs
  | cons s' specs ih =>
    rw [List.map_cons, List.foldlM_cons]
    by_cases hsep : '=' ∈ s'.key
    · obtain ⟨e, he⟩ := addSpec_separator map hsep
      rw [he]
      exact ⟨e, rfl⟩
    · rw [addSpec_free map hsep]
      rcases List.mem_cons.mp hs with rfl | hs
      · exact absurd h hsep
      · exact ih hs _

theorem lookup_specs (specs : List Spec) (map : LevelMap) (key : Str) :
    (specs.foldl (fun map s => map.insert s.key s.level) map).lookup key =
      (lastLevel specs key).or (map.lookup key) := by
  induction specs using List.reverseRecOn with
  | nil => rfl
  | append_singleton specs s ih =>
    rw [List.foldl_append, List.foldl_cons, List.foldl_nil, lastLevel, List.reverse_append]
    by_cases hkey : s.key = key
    · subst hkey
      rw [AList.lookup_insert]
      simp
    · rw [AList.lookup_insert_ne (Ne.symm hkey), ih, lastLevel]
      simp [hkey]

theorem entries_specs {specs : List Spec} (hne : specs ≠ []) (map : LevelMap) :
    (specs.foldl (fun map s => map.insert s.key s.level) map).entries.isEmpty = false := by
  induction specs using List.reverseRecOn with
  | nil => exact absurd rfl hne
  | append_singleton specs s _ =>
    rw [List.foldl_append, List.foldl_cons, List.foldl_nil, AList.entries_insert]
    rfl

theorem levelFor_id (p : Permissions) (m : MatrixId) : p.levelFor m.text =
    (p.map.lookup m.text).or ((p.map.lookup m.server).or (p.map.lookup "*".toList)) := by
  rw [Permissions.levelFor, m.splitOnce, Option.bind_some]
  dsimp only
  cases p.map.lookup m.text with
  | some level => rfl
  | none => cases p.map.lookup m.server <;> rfl

theorem meansWhatItSays_nil {bridgeDomain : Str} (hdomain : ServerName bridgeDomain) :
    MeansWhatItSays [] bridgeDomain := by
  refine ⟨⟨AList.insert bridgeDomain .user ∅⟩, rfl, fun m => ?_⟩
  have hid := m.ne_server hdomain
  have hall : "*".toList ≠ bridgeDomain := by
    rintro rfl
    exact hdomain.not_mem (c := '*') (by decide) List.mem_cons_self
  rw [levelFor_id]
  dsimp only
  rw [AList.lookup_insert_ne hid, AList.lookup_insert_ne hall]
  by_cases hserver : m.server = bridgeDomain
  · rw [hserver, AList.lookup_insert]
    exact (if_pos hserver).symm
  · rw [AList.lookup_insert_ne hserver]
    exact (if_neg hserver).symm

theorem meansWhatItSays_free {specs : List Spec} (hne : specs ≠ []) (bridgeDomain : Str)
    (h : ∀ s ∈ specs, '=' ∉ s.key) : MeansWhatItSays specs bridgeDomain := by
  refine ⟨⟨specs.foldl (fun map s => map.insert s.key s.level) ∅⟩, ?_, fun m => ?_⟩
  · rw [Permissions.fromSpecs, foldlM_addSpec h]
    show Except.ok (if _ then _ else _) = _
    rw [entries_specs hne]
    rfl
  · have hempty : ∀ key, (∅ : LevelMap).lookup key = none := fun _ => rfl
    rw [levelFor_id, granted, if_neg (by simpa using hne)]
    simp only [lookup_specs, hempty, Option.or_none]

/-- The specs mean what they say exactly when no localpart in them holds an equals sign. -/
theorem meansWhatItSays_iff (specs : List Spec) {bridgeDomain : Str}
    (hdomain : ServerName bridgeDomain) :
    MeansWhatItSays specs bridgeDomain ↔ ∀ s ∈ specs, '=' ∉ s.key := by
  constructor
  · rintro ⟨p, hp, -⟩ s hs hsep
    obtain ⟨e, he⟩ := foldlM_addSpec_error hs hsep ∅
    rw [Permissions.fromSpecs, he] at hp
    cases hp
  · intro h
    by_cases hne : specs = []
    · subst hne
      exact meansWhatItSays_nil hdomain
    · exact meansWhatItSays_free hne bridgeDomain h

theorem serverName_example : ServerName "example.com".toList :=
  .bare (.name (by decide) (forall_mem_of_all (by decide)))

def aliceId : MatrixId :=
  ⟨"alice".toList, "example.com".toList, forall_mem_of_all (by decide), serverName_example⟩

/-- An id as a bridge of another network makes them. -/
def escapedId : MatrixId :=
  ⟨"bob=40mail.org".toList, "example.com".toList, forall_mem_of_all (by decide), serverName_example⟩

/-- An administrator and a server full of users. -/
theorem meansWhatItSays_alice :
    MeansWhatItSays
      [⟨aliceId.text, " Admin".toList, .admin, .id aliceId, by decide⟩,
        ⟨"example.com".toList, "user".toList, .user, .server serverName_example, by decide⟩]
      "example.com".toList := by
  refine (meansWhatItSays_iff _ serverName_example).mpr fun s hs => ?_
  rcases List.mem_cons.mp hs with rfl | hs
  · show '=' ∉ aliceId.text
    decide
  · obtain rfl := List.mem_singleton.mp hs
    show '=' ∉ "example.com".toList
    decide

/-- The id is cut in two, and the bridge refuses to start. -/
theorem escaped_id_refused :
    ¬ MeansWhatItSays [⟨escapedId.text, "user".toList, .user, .id escapedId, by decide⟩]
      "example.com".toList := by
  rintro ⟨p, hp, -⟩
  have hcut :
      Permissions.fromSpecs ["@bob=40mail.org:example.com=user".toList] "example.com".toList =
      .error (.unknownLevel "40mail.org:example.com=user".toList) := rfl
  have hread :
      Permissions.fromSpecs ["@bob=40mail.org:example.com=user".toList] "example.com".toList =
      .ok p := hp
  rw [hcut] at hread
  cases hread

end JmapBridge
