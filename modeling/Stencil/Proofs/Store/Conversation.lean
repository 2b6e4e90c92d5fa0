import Mathlib.Data.List.Basic
import Stencil.Proofs.Op
import Stencil.Proofs.Record.Grouping
import Stencil.Proofs.Store.Requests

/-!
# What the store says to an appliance

Whatever the shell answers, the commands of the store on an appliance follow fixed rules
(`Orderly`): the folder and the collection are created before anything else is said, once and for all
when both have been accepted; a call that is refused there says nothing more; a collection is replaced
only by a write that has just listed it, and saved only when that is asked for.

`Converses` is what one call can say, with the answers that it gets. The rules of whole conversations
(`orderly_turns`) are read off it, by induction on the calls.
-/

namespace Stencil

namespace ApplianceStore

/-! ### Conversations -/

/-- A command that was sent, and what came back. -/
structure Exchange where
  command : String
  answer : Except Fault String

/-- The command begins with these words. -/
def Exchange.Begins (x : Exchange) (words : String) : Prop := words.toList <+: x.command.toList

/-- Something has been created, or exists already as far as the complaint goes. -/
def Accepted : Except Fault String → Prop
  | .ok _ => True
  | .error e => Text.occursIn "already exists".toList (reasonOf e).toList = true

/-- The shell, with all exchanges noted. -/
def overheard {τ : Type} (shell : Shell τ) : Shell (τ × List Exchange) := fun command => do
  let answer ← Op.attempt ((shell command).zoom Lens.fst)
  modify fun s => (s.1, s.2 ++ [⟨command, answer⟩])
  Op.ofExcept answer

/-- What is called of a store. -/
inductive Call where
  | keys
  | has (key : String)
  | get (key : String)
  | set (key : String) (value : Json)
  | delete (key : String)
  | persist

namespace Call

/-- The key that a call is about. -/
def key? : Call → Option String
  | .keys | .persist => none
  | .has key | .get key | .set key _ | .delete key => some key

/-- No record name can hold the key of the call. -/
def Misnamed (call : Call) : Prop := ∃ key, call.key? = some key ∧ ¬ ValidKey key

/-- Makes the call; what it gives does not matter here. -/
def perform {σ : Type} (st : Store σ) : Call → Op σ Unit
  | .keys => do let _ ← st.keys
  | .has key => do let _ ← st.has key
  | .get key => do let _ ← st.get key
  | .set key value => st.set key value
  | .delete key => do let _ ← st.delete key
  | .persist => st.persist

end Call

/-- What was said during a call, and how the call ended. -/
structure Turn where
  call : Call
  said : List Exchange
  result : Except Fault Unit

variable {τ : Type}

/-- The conversation of a store with an appliance when one call is made after another. -/
def turns (z : Compression) (shell : Shell τ) (c : Collection) : State τ → List Call → List Turn
  | _, [] => []
  | s, call :: rest =>
    let (r, s') := Op.result (call.perform (Store.appliance z (overheard shell) c)) (s.1, s.2, [])
    ⟨call, s'.2.2, r⟩ :: turns z shell c (s'.1, s'.2.1) rest

/-- All that was said, in order. -/
def transcript (ts : List Turn) : List Exchange := ts.flatMap (·.said)

/-- The failure of a call whose folder or collection could not be created. -/
def conflict (resource : String) (answer : Fault) : Fault :=
  .problem (.backendConflict resource (Text.trimmed (reasonOf answer)))

/-- The rules of a conversation. -/
structure Orderly (c : Collection) (ts : List Turn) : Prop where
  /-- Nothing is said about a key that no record name can hold. -/
  silent : ∀ t ∈ ts, t.call.Misnamed → t.said = []
  /-- The folder and then the collection have been accepted before anything else is said. -/
  prepared : ∀ before x after, transcript ts = before ++ x :: after →
    x.Begins "list " ∨ x.Begins "modify " ∨ x.Begins "save " →
    ∃ l r m r' n, before = l ++ ⟨c.createFolder, r⟩ :: (m ++ ⟨c.create, r'⟩ :: n) ∧
      Accepted r ∧ Accepted r'
  /-- Once both have been accepted, one after the other, nothing more is created. -/
  once : ∀ l r r' m, transcript ts = l ++ ⟨c.createFolder, r⟩ :: ⟨c.create, r'⟩ :: m →
    Accepted r → Accepted r' → ∀ x ∈ m, ¬ x.Begins "create "
  /-- A call in which something was not accepted says nothing more, and fails for that reason. -/
  refused : ∀ t ∈ ts, ∀ l x m, t.said = l ++ x :: m → x.Begins "create " → ¬ Accepted x.answer →
    m = [] ∧ ∃ resource reason, t.result = .error (.problem (.backendConflict resource reason))
  /-- The next call that says anything then begins anew. -/
  retried : ∀ l t m u n, ts = l ++ t :: (m ++ u :: n) →
    (∃ x ∈ t.said, x.Begins "create " ∧ ¬ Accepted x.answer) → (∀ v ∈ m, v.call.Misnamed) →
    ¬ u.call.Misnamed → ∃ r rest, u.said = ⟨c.createFolder, r⟩ :: rest
  /-- The collection is replaced at most once in a call, at its end, right after it was listed; only
  when a value is set, or when a key is deleted that is in the listing. -/
  modified : ∀ t ∈ ts, ∀ l x m, t.said = l ++ x :: m → x.Begins "modify " →
    m = [] ∧ ∃ l' text, l = l' ++ [⟨c.list, .ok text⟩] ∧
      ((∃ key value, t.call = .set key value) ∨ ∃ key, t.call = .delete key ∧
        key ∈ RecordGroup.keys (Record.ofListing text))
  /-- Only a call to persist saves. -/
  saved : ∀ t ∈ ts, ∀ x ∈ t.said, x.Begins "save " → t.call = .persist

/-! ### What the parts of a call say -/

variable {z : Compression} {shell : Shell τ} {c : Collection} {α β : Type}

/-- From what is known of the collection, and with what is said, to how an operation ends and what is
known then. -/
abbrev Report (α : Type) := Bool → List Exchange → Except Fault α → Bool → Prop

/-- Wherever it begins, an operation says what a report allows. -/
def Says (op : Op (State (τ × List Exchange)) α) (P : Report α) : Prop :=
  ∀ b t said, ∃ more r b' t', Op.result op (b, t, said) = (r, b', t', said ++ more) ∧ P b more r b'

theorem Says.bind {x : Op (State (τ × List Exchange)) α} {f : α → Op (State (τ × List Exchange)) β}
    {P : Report α} {R : α → Report β} {Q : Report β} (hx : Says x P) (hf : ∀ a, Says (f a) (R a))
    (herror : ∀ b more e b', P b more (.error e) b' → Q b more (.error e) b')
    (hok : ∀ b more a b' more' r b'', P b more (.ok a) b' → R a b' more' r b'' →
      Q b (more ++ more') r b'') : Says (x >>= f) Q := by
  intro b t said
  obtain ⟨more, r, b', t', hres, hP⟩ := hx b t said
  cases r with
  | error e => exact ⟨more, .error e, b', t', Op.result_bind_of_error hres, herror _ _ _ _ hP⟩
  | ok a =>
    obtain ⟨more', r', b'', t'', hres', hR⟩ := hf a b' t' (said ++ more)
    refine ⟨more ++ more', r', b'', t'', ?_, hok _ _ _ _ _ _ _ hP hR⟩
    rw [Op.result_bind_of_ok hres, hres', List.append_assoc]

theorem Says.imp {op : Op (State (τ × List Exchange)) α} {P Q : Report α} (h : Says op P)
    (hPQ : ∀ b more r b', P b more r b' → Q b more r b') : Says op Q := fun b t said =>
  let ⟨more, r, b', t', hres, hP⟩ := h b t said
  ⟨more, r, b', t', hres, hPQ _ _ _ _ hP⟩

/-- The operation ends, says nothing and changes nothing. -/
def Quietly (r : Except Fault α) : Report α := fun b more r' b' => more = [] ∧ r' = r ∧ b' = b

theorem says_quietly {op : Op (State (τ × List Exchange)) α} {r : Except Fault α}
    (h : ∀ s, Op.result op s = (r, s)) : Says op (Quietly r) := fun b t said =>
  ⟨[], r, b, t, by rw [h, List.append_nil], rfl, rfl, rfl⟩

theorem says_pure (a : α) : Says (pure a : Op (State (τ × List Exchange)) α) (Quietly (.ok a)) :=
  says_quietly fun _ => rfl

theorem says_ofExcept (x : Except Fault α) :
    Says (Op.ofExcept x : Op (State (τ × List Exchange)) α) (Quietly x) :=
  says_quietly (Op.result_ofExcept x)

/-- One command is sent. -/
theorem says_send (shell : Shell τ) (command : String) :
    Says (send (overheard shell) command) fun b more r b' => more = [⟨command, r⟩] ∧ b' = b := by
  intro b t said
  obtain ⟨r, t', hr⟩ : ∃ r t', Op.result (shell command) t = (r, t') := ⟨_, _, rfl⟩
  have hshell : Op.result (Op.attempt ((shell command).zoom Lens.fst)) (t, said) =
      (.ok r, t', said) := by
    rw [Op.result_attempt, Op.result_zoom_fst hr]
  have hover : Op.result (overheard shell command) (t, said) = (r, t', said ++ [⟨command, r⟩]) := by
    rw [overheard, Op.result_bind_of_ok hshell, Op.result_bind_of_ok (Op.result_modify _ _)]
    cases r <;> rfl
  refine ⟨[⟨command, r⟩], r, b, t', ?_, rfl, rfl⟩
  rw [send, Op.result_zoom, show Op.result (overheard shell command) (Lens.snd.get (b, t, said)) = _
    from hover]
  rfl

/-- A command that creates something is sent, and fails the call unless it is accepted. -/
theorem says_createOnce (shell : Shell τ) (resource command : String) :
    Says (createOnce (overheard shell) resource command) fun b more r b' => b' = b ∧
      ∃ answer, more = [⟨command, answer⟩] ∧ (Accepted answer ∧ r = .ok () ∨
        ¬ Accepted answer ∧ ∃ e, r = .error (conflict resource e)) := by
  intro b t said
  obtain ⟨_, answer, b, t', hres, rfl, rfl⟩ := says_send shell command b t said
  have hatt : Op.result (Op.attempt (send (overheard shell) command)) (b, t, said) =
      (.ok answer, b, t', said ++ [⟨command, answer⟩]) := by
    rw [Op.result_attempt, hres]
  rw [createOnce, Op.result_bind_of_ok hatt]
  cases answer with
  | ok text => exact ⟨_, _, b, t', rfl, rfl, _, rfl, .inl ⟨trivial, rfl⟩⟩
  | error e =>
    simp only
    split
    · rename_i h
      exact ⟨_, _, b, t', rfl, rfl, _, rfl, .inl ⟨h, rfl⟩⟩
    · rename_i h
      exact ⟨_, _, b, t', rfl, rfl, _, rfl, .inr ⟨h, e, rfl⟩⟩

/-- Seeing to it that the collection exists. -/
inductive Provisions (c : Collection) : Report Unit where
  | known : Provisions c true [] (.ok ()) true
  | created {r r' : Except Fault String} (hr : Accepted r) (hr' : Accepted r') :
    Provisions c false [⟨c.createFolder, r⟩, ⟨c.create, r'⟩] (.ok ()) true
  | noFolder {r : Except Fault String} (hr : ¬ Accepted r) (e : Fault) :
    Provisions c false [⟨c.createFolder, r⟩] (.error (conflict c.folderPath e)) false
  | noCollection {r r' : Except Fault String} (hr : Accepted r) (hr' : ¬ Accepted r') (e : Fault) :
    Provisions c false [⟨c.createFolder, r⟩, ⟨c.create, r'⟩] (.error (conflict c.path e)) false

theorem says_provision (shell : Shell τ) (c : Collection) :
    Says (provision (overheard shell) c) (Provisions c) := by
  intro b t said
  rw [provision, Op.result_bind_of_ok (Op.result_get _)]
  cases b with
  | true => exact ⟨[], _, true, t, by rw [List.append_nil]; rfl, .known⟩
  | false =>
    have hnew : (!(false, t, said).1) = true := rfl
    rw [if_pos hnew]
    obtain ⟨_, r₁, _, t₁, h₁, rfl, a₁, rfl, ⟨ha₁, rfl⟩ | ⟨ha₁, e, rfl⟩⟩ :=
      says_createOnce shell c.folderPath c.createFolder false t said
    · rw [Op.result_bind_of_ok h₁]
      obtain ⟨_, r₂, _, t₂, h₂, rfl, a₂, rfl, ⟨ha₂, rfl⟩ | ⟨ha₂, e, rfl⟩⟩ :=
        says_createOnce shell c.path c.create false t₁ (said ++ [⟨c.createFolder, a₁⟩])
      · rw [Op.result_bind_of_ok h₂]
        exact ⟨_, _, true, t₂, by rw [List.append_assoc]; rfl, .created ha₁ ha₂⟩
      · rw [Op.result_bind_of_error h₂]
        exact ⟨_, _, false, t₂, by rw [List.append_assoc]; rfl, .noCollection ha₁ ha₂ e⟩
    · rw [Op.result_bind_of_error h₁]
      exact ⟨_, _, false, t₁, rfl, .noFolder ha₁ e⟩

/-- Reading what the collection holds. -/
inductive Lists (c : Collection) : Report (List RecordGroup) where
  | unprovided {b b' : Bool} {more : List Exchange} {e : Fault} :
    Provisions c b more (.error e) b' → Lists c b more (.error e) b'
  | unlisted {b b' : Bool} {more : List Exchange} (e : Fault) :
    Provisions c b more (.ok ()) b' → Lists c b (more ++ [⟨c.list, .error e⟩]) (.error e) b'
  | listed {b b' : Bool} {more : List Exchange} {r : Except Fault (List RecordGroup)} (text : String) :
    Provisions c b more (.ok ()) b' → RecordGroup.scan (Record.ofListing text) = r →
    Lists c b (more ++ [⟨c.list, .ok text⟩]) r b'

theorem says_readGroups (shell : Shell τ) (c : Collection) :
    Says (readGroups (overheard shell) c) (Lists c) := by
  have hlist : Says (send (overheard shell) c.list >>= fun text => pure (Record.ofListing text))
      fun b more r b' => b' = b ∧ ∃ answer, more = [⟨c.list, answer⟩] ∧
        r = answer.map Record.ofListing := by
    refine (says_send shell c.list).bind (fun text => says_pure (Record.ofListing text)) ?_ ?_
    · rintro b more e b' ⟨rfl, rfl⟩
      exact ⟨rfl, _, rfl, rfl⟩
    · rintro b more text b' more' r b'' ⟨rfl, rfl⟩ ⟨rfl, rfl, rfl⟩
      exact ⟨rfl, _, rfl, rfl⟩
  have hrecords : Says (readRecords (overheard shell) c) fun b more r b' =>
      (∃ e, r = .error e ∧ Provisions c b more (.error e) b') ∨ ∃ answer more',
        more = more' ++ [⟨c.list, answer⟩] ∧ r = answer.map Record.ofListing ∧
          Provisions c b more' (.ok ()) b' := by
    refine (says_provision shell c).bind (fun _ => hlist) (fun b more e b' h => .inl ⟨e, rfl, h⟩) ?_
    rintro b more _ b' more' r b'' h ⟨rfl, answer, rfl, rfl⟩
    exact .inr ⟨answer, more, rfl, rfl, h⟩
  refine hrecords.bind (fun rs => says_ofExcept (RecordGroup.scan rs)) ?_ ?_
  · rintro b more e b' (⟨_, he, h⟩ | ⟨answer, more, rfl, he, h⟩)
    · obtain rfl := Except.error.inj he
      exact .unprovided h
    · cases answer with
      | error e' =>
        obtain rfl := Except.error.inj he
        exact .unlisted _ h
      | ok text => cases he
  · rintro b more rs b' more' r b'' (⟨_, he, h⟩ | ⟨answer, more, rfl, he, h⟩) ⟨rfl, rfl, rfl⟩
    · cases he
    · cases answer with
      | error e' => cases he
      | ok text =>
        obtain rfl := Except.ok.inj he
        rw [List.append_nil]
        exact .listed text h rfl

theorem says_checkKey (key : String) :
    Says (checkKey key : Op (State (τ × List Exchange)) Unit) fun b more r b' => more = [] ∧ b' = b ∧
      (ValidKey key ∧ r = .ok () ∨ ¬ ValidKey key ∧ ∃ e, r = .error e) := by
  intro b t said
  by_cases h : ValidKey key
  · refine ⟨[], .ok (), b, t, ?_, rfl, rfl, .inl ⟨h, rfl⟩⟩
    have hf : (key.toList.find? fun d => !isKeyChar d) = none := by
      rw [List.find?_eq_none]
      intro d hd
      simp [h.isKeyChar_of_mem d hd]
    rw [checkKey, Op.result_bind_of_ok (Op.result_requireKey "key" h.ne_empty _), hf, List.append_nil]
    rfl
  · suffices he : ∃ e, Op.result (checkKey key : Op (State (τ × List Exchange)) Unit) (b, t, said) =
        (.error e, b, t, said) by
      obtain ⟨e, he⟩ := he
      exact ⟨[], .error e, b, t, by rw [he, List.append_nil], rfl, rfl, .inr ⟨h, e, rfl⟩⟩
    by_cases hk : key = ""
    · subst hk
      exact ⟨_, rfl⟩
    · rw [checkKey, Op.result_bind_of_ok (Op.result_requireKey "key" hk _)]
      rcases hf : key.toList.find? fun d => !isKeyChar d with _ | d
      · refine absurd ⟨hk, fun d hd => ?_⟩ h
        simpa using List.find?_eq_none.1 hf d hd
      · exact ⟨_, rfl⟩

/-! ### What a call says -/

/-- What is said for a call once the collection is provided. -/
inductive Errand (c : Collection) : Call → List Exchange → Prop where
  | unlisted (call : Call) (e : Fault) : Errand c call [⟨c.list, .error e⟩]
  | listed (call : Call) (text : String) : Errand c call [⟨c.list, .ok text⟩]
  | set (key : String) (value : Json) (text : String) (new : List Record)
    (answer : Except Fault String) :
    Errand c (.set key value) [⟨c.list, .ok text⟩, ⟨c.modify new, answer⟩]
  | delete {key text : String} (h : key ∈ RecordGroup.keys (Record.ofListing text))
    (new : List Record) (answer : Except Fault String) :
    Errand c (.delete key) [⟨c.list, .ok text⟩, ⟨c.modify new, answer⟩]
  | persist (answer : Except Fault String) : Errand c .persist [⟨save, answer⟩]

/-- What a call says: nothing, if its key is no good; else it sees to it that the collection exists,
and if that does not fail it goes about its errand. -/
inductive Converses (c : Collection) (call : Call) : Report α where
  | silent {b : Bool} (h : call.Misnamed) (e : Fault) : Converses c call b [] (.error e) b
  | refused {b b' : Bool} {more : List Exchange} {e : Fault} (h : ¬ call.Misnamed) :
    Provisions c b more (.error e) b' → Converses c call b more (.error e) b'
  | served {b b' : Bool} {more rest : List Exchange} {r : Except Fault α} (h : ¬ call.Misnamed) :
    Provisions c b more (.ok ()) b' → Errand c call rest → Converses c call b (more ++ rest) r b'

variable {call : Call}

/-- Nothing more is said, or the collection is replaced in a call that may do so. -/
def Replaces (c : Collection) (call : Call) (gs : List RecordGroup) : Report α := fun b more _ b' =>
  b' = b ∧ (more = [] ∨ ∃ new answer, more = [⟨c.modify new, answer⟩] ∧
    ((∃ key value, call = .set key value) ∨ ∃ key, call = .delete key ∧ key ∈ gs.map (·.key)))

/-- A call that begins with the groups of the collection. -/
theorem says_listing {f : List RecordGroup → Op (State (τ × List Exchange)) α}
    (h : ¬ call.Misnamed) (hf : ∀ gs, Says (f gs) (Replaces c call gs)) :
    Says (readGroups (overheard shell) c >>= f) (Converses c call) := by
  refine (says_readGroups shell c).bind hf ?_ ?_
  · rintro b more e b' (hp | ⟨_, hp⟩ | ⟨text, hp, -⟩)
    · exact .refused h hp
    · exact .served h hp (.unlisted call e)
    · exact .served h hp (.listed call text)
  · rintro b _ gs b' more' r b'' (_ | _ | ⟨text, hp, hscan⟩) ⟨rfl, rfl | ⟨new, answer, rfl, hcall⟩⟩
    · rw [List.append_nil]
      exact .served h hp (.listed call text)
    · rw [List.append_assoc]
      obtain ⟨key, value, rfl⟩ | ⟨key, rfl, hkey⟩ := hcall
      · exact .served h hp (.set key value text new answer)
      · rw [RecordGroup.eq_group_of_scan hscan] at hkey
        exact .served h hp (.delete hkey new answer)

/-- Looking at the groups says nothing more. -/
theorem says_look {op : Op (State (τ × List Exchange)) α} (h : ∀ s, (Op.result op s).2 = s)
    (gs : List RecordGroup) : Says op (Replaces c call gs) := fun b t said =>
  ⟨[], (Op.result op (b, t, said)).1, b, t, by rw [List.append_nil]; exact Prod.ext rfl (h _),
    rfl, .inl rfl⟩

/-- A call about a key checks the key first. -/
theorem says_keyed {key : String} {op : Op (State (τ × List Exchange)) α} (hkey : call.key? = some key)
    (hop : ¬ call.Misnamed → Says op (Converses c call)) :
    Says (checkKey key >>= fun _ => op) (Converses c call) := by
  by_cases h : ValidKey key
  · have hnamed : ¬ call.Misnamed := by
      rintro ⟨key', hkey', hbad⟩
      obtain rfl := Option.some.inj (hkey.symm.trans hkey')
      exact hbad h
    refine (says_checkKey key).bind (fun _ => hop hnamed) ?_ ?_
    · rintro b more e b' ⟨-, -, ⟨-, he⟩ | ⟨hbad, -⟩⟩
      · cases he
      · exact absurd h hbad
    · rintro b more _ b' more' r b'' ⟨rfl, rfl, -⟩ hr
      exact hr
  · intro b t said
    obtain ⟨_, _, b, t', hres, rfl, rfl, ⟨hkey', -⟩ | ⟨-, e, rfl⟩⟩ := says_checkKey key b t said
    · exact absurd hkey' h
    · exact ⟨[], .error e, b, t', Op.result_bind_of_error hres, .silent ⟨key, hkey, h⟩ e⟩

/-- What a call gives does not matter for what it says. -/
theorem Says.discard {op : Op (State (τ × List Exchange)) α} (h : Says op (Converses c call)) :
    Says (do let _ ← op) (Converses c call) := by
  refine h.bind (fun _ => says_pure ()) ?_ ?_
  · rintro b more e b' (⟨hbad, _⟩ | ⟨hnamed, hp⟩ | ⟨hnamed, hp, herr⟩)
    · exact .silent hbad e
    · exact .refused hnamed hp
    · exact .served hnamed hp herr
  · rintro b more a b' more' r b'' h ⟨rfl, rfl, rfl⟩
    rw [List.append_nil]
    cases h with
    | served hnamed hp herr => exact .served hnamed hp herr

theorem says_writeRecords (shell : Shell τ) (c : Collection) (new : List Record) :
    Says (writeRecords (overheard shell) c new) fun b more _ b' => b' = b ∧
      ∃ answer, more = [⟨c.modify new, answer⟩] := by
  refine (says_send shell (c.modify new)).bind (fun _ => says_pure ()) ?_ ?_
  · rintro b more e b' ⟨rfl, rfl⟩
    exact ⟨rfl, _, rfl⟩
  · rintro b more a b' more' r b'' ⟨rfl, rfl⟩ ⟨rfl, rfl, rfl⟩
    exact ⟨rfl, _, rfl⟩

/-- **What one call says**, whatever the shell answers. -/
theorem says_perform (z : Compression) (shell : Shell τ) (c : Collection) (call : Call) :
    Says (call.perform (Store.appliance z (overheard shell) c)) (Converses c call) := by
  have hset (key : String) (value : Json) (gs : List RecordGroup) :=
    says_writeRecords shell c (recordsExcept gs key ++ Record.pack z key value 0)
  cases call with
  | keys =>
    refine Says.discard (says_listing (fun h => ?_) fun gs => says_look (fun _ => rfl) gs)
    obtain ⟨key, hkey, -⟩ := h
    cases hkey
  | has key =>
    exact (says_keyed rfl fun h => says_listing h fun gs => says_look (fun _ => rfl) gs).discard
  | get key =>
    refine (says_keyed rfl fun h => says_listing h fun gs => says_look (fun s => ?_) gs).discard
    split
    · rfl
    · rename_i g _
      rw [valueOf]
      cases Record.load z g.records g.key g.offset <;> rfl
  | set key value =>
    refine says_keyed rfl fun h => says_listing h fun gs => (hset key value gs).imp ?_
    rintro b more r b' ⟨rfl, answer, rfl⟩
    exact ⟨rfl, .inr ⟨_, answer, rfl, .inl ⟨key, value, rfl⟩⟩⟩
  | delete key =>
    refine (says_keyed rfl fun h => says_listing h fun gs => ?_).discard
    by_cases hin : gs.any (·.key == key) = true
    · rw [if_pos hin]
      have hmem : key ∈ gs.map (·.key) := by simpa using hin
      refine (says_writeRecords shell c _).bind (fun _ => says_pure true) ?_ ?_
      · rintro b more e b' ⟨rfl, answer, rfl⟩
        exact ⟨rfl, .inr ⟨_, answer, rfl, .inr ⟨key, rfl, hmem⟩⟩⟩
      · rintro b more a b' more' r b'' ⟨rfl, answer, rfl⟩ ⟨rfl, rfl, rfl⟩
        exact ⟨rfl, .inr ⟨_, answer, rfl, .inr ⟨key, rfl, hmem⟩⟩⟩
    · rw [if_neg hin]
      exact says_look (fun _ => rfl) gs
  | persist =>
    have hnamed : ¬ Call.persist.Misnamed := by
      rintro ⟨key, hkey, -⟩
      cases hkey
    refine (says_provision shell c).bind (R := fun _ b more _ b' => b' = b ∧
      ∃ answer, more = [⟨save, answer⟩]) (fun _ => ?_) ?_ ?_
    · refine (says_send shell save).bind (fun _ => says_pure ()) ?_ ?_
      · rintro b more e b' ⟨rfl, rfl⟩
        exact ⟨rfl, _, rfl⟩
      · rintro b more a b' more' r b'' ⟨rfl, rfl⟩ ⟨rfl, rfl, rfl⟩
        exact ⟨rfl, _, rfl⟩
    · exact fun b more e b' hp => .refused hnamed hp
    · rintro b more _ b' more' r b'' hp ⟨rfl, answer, rfl⟩
      exact .served hnamed hp (.persist answer)

/-! ### How commands begin -/

namespace Exchange

theorem Begins.head? {words : String} {x : Exchange} {d : Char} {u : List Char} (h : x.Begins words)
    (hw : words.toList = d :: u) : x.command.toList.head? = some d := by
  obtain ⟨t, ht⟩ := h
  rw [← ht, hw]
  rfl

end Exchange

theorem head?_append {first rest : String} {d : Char} (h : first.toList.head? = some d) :
    (first ++ rest).toList.head? = some d := by
  rw [String.toList_append, List.head?_append, h]
  rfl

theorem head?_list (c : Collection) : c.list.toList.head? = some 'l' := by
  unfold Collection.list
  exact head?_append rfl

theorem head?_modify (c : Collection) (new : List Record) :
    (c.modify new).toList.head? = some 'm' := by
  have hfront : ("modify ltm data-group internal " ++ c.path ++ " records ").toList.head? = some 'm' :=
    head?_append (head?_append rfl)
  simp only [Collection.modify, String.toList_ofList, List.head?_append, hfront, Option.some_or]

theorem head?_save : save.toList.head? = some 's' := rfl

theorem prefix_append {words first rest : String} (h : words.toList <+: first.toList) :
    words.toList <+: (first ++ rest).toList := by
  rw [String.toList_append]
  exact h.trans (List.prefix_append _ _)

theorem prefix_createFolder {words : String} (c : Collection)
    (h : words.toList <+: "create sys folder ".toList) : words.toList <+: c.createFolder.toList :=
  prefix_append h

theorem prefix_create {words : String} (c : Collection)
    (h : words.toList <+: "create ltm data-group internal ".toList) :
    words.toList <+: c.create.toList :=
  prefix_append (prefix_append h)

theorem createFolder_ne_create (c : Collection) : c.createFolder ≠ c.create := by
  intro h
  have hfolder : "create s".toList <+: c.createFolder.toList := prefix_createFolder c (by decide)
  have hcreate : "create l".toList <+: c.createFolder.toList := h ▸ prefix_create c (by decide)
  exact absurd (List.prefix_of_prefix_length_le hfolder hcreate (by decide)) (by decide)

/-- What is said for an errand begins with its own verb. -/
theorem Errand.head?_ne {rest : List Exchange} (h : Errand c call rest) :
    ∀ x ∈ rest, x.command.toList.head? ≠ some 'c' := by
  intro x hx
  cases h with
  | unlisted | listed =>
    obtain rfl := List.mem_singleton.1 hx
    rw [head?_list]
    decide
  | set | delete =>
    obtain rfl | hx := List.mem_cons.1 hx
    · rw [head?_list]
      decide
    · obtain rfl := List.mem_singleton.1 hx
      rw [head?_modify]
      decide
  | persist =>
    obtain rfl := List.mem_singleton.1 hx
    rw [head?_save]
    decide

/-- What is said for an errand creates nothing. -/
theorem Errand.not_begins_create {rest : List Exchange} (h : Errand c call rest) :
    ∀ x ∈ rest, ¬ x.Begins "create " := fun x hx hbegins => h.head?_ne x hx (hbegins.head? rfl)

theorem Errand.modifies {l m : List Exchange} {x : Exchange} (h : Errand c call (l ++ x :: m))
    (hx : x.command.toList.head? = some 'm') : m = [] ∧ ∃ text, l = [⟨c.list, .ok text⟩] ∧
      ((∃ key value, call = .set key value) ∨ ∃ key, call = .delete key ∧
        key ∈ RecordGroup.keys (Record.ofListing text)) := by
  cases l with
  | nil =>
    rw [List.nil_append] at h
    cases h with
    | persist => cases head?_save.symm.trans hx
    | _ => cases (head?_list c).symm.trans hx
  | cons y l =>
    rw [List.cons_append] at h
    generalize htail : l ++ x :: m = tail at h
    cases h with
    | unlisted | listed | persist => simp at htail
    | set key value text new answer =>
      obtain ⟨rfl, -, rfl⟩ : l = [] ∧ x = ⟨c.modify new, answer⟩ ∧ m = [] := by
        simpa [List.append_eq_singleton_iff] using htail
      exact ⟨rfl, text, rfl, .inl ⟨key, value, rfl⟩⟩
    | @delete key text hkey new answer =>
      obtain ⟨rfl, -, rfl⟩ : l = [] ∧ x = ⟨c.modify new, answer⟩ ∧ m = [] := by
        simpa [List.append_eq_singleton_iff] using htail
      exact ⟨rfl, text, rfl, .inr ⟨key, rfl, hkey⟩⟩

theorem Errand.saves {l m : List Exchange} {x : Exchange} (h : Errand c call (l ++ x :: m))
    (hx : x.command.toList.head? = some 's') : call = .persist := by
  have hmem : x ∈ l ++ x :: m := by simp
  generalize l ++ x :: m = rest at h hmem
  cases h with
  | unlisted | listed =>
    obtain rfl := List.mem_singleton.1 hmem
    cases (head?_list c).symm.trans hx
  | set | delete =>
    obtain rfl | hmem := List.mem_cons.1 hmem
    · cases (head?_list c).symm.trans hx
    · obtain rfl := List.mem_singleton.1 hmem
      cases (head?_modify c _).symm.trans hx
  | persist => rfl

/-- What is said as long as the collection has not been created: commands to create, and none that
created the collection. -/
def Tries (c : Collection) (x : Exchange) : Prop :=
  x.Begins "create " ∧ ¬ (x.command = c.create ∧ Accepted x.answer)

theorem tries_createFolder (c : Collection) (r : Except Fault String) :
    Tries c ⟨c.createFolder, r⟩ := by
  refine ⟨?_, fun h => createFolder_ne_create c h.1⟩
  exact prefix_createFolder c (by decide)

theorem create_begins (c : Collection) (r : Except Fault String) :
    Exchange.Begins ⟨c.create, r⟩ "create " :=
  prefix_create c (by decide)

/-- Seeing to the collection begins with its folder, where nothing is known. -/
theorem Provisions.of_unknown {b' : Bool} {more : List Exchange} {r : Except Fault Unit}
    (h : Provisions c false more r b') : ∃ answer rest, more = ⟨c.createFolder, answer⟩ :: rest := by
  cases h <;> exact ⟨_, _, rfl⟩

/-- Seeing to the collection only creates. -/
theorem Provisions.begins_create {b b' : Bool} {more : List Exchange} {r : Except Fault Unit}
    (h : Provisions c b more r b') : ∀ x ∈ more, x.Begins "create " := by
  have hf (answer : Except Fault String) := (tries_createFolder c answer).1
  have hc (answer : Except Fault String) := create_begins c answer
  intro x hx
  cases h <;> simp only [List.mem_cons, List.not_mem_nil, or_false] at hx
  case created => obtain rfl | rfl := hx <;> [exact hf _; exact hc _]
  case noFolder => exact hx ▸ hf _
  case noCollection => obtain rfl | rfl := hx <;> [exact hf _; exact hc _]

/-- What is said in an attempt that fails. -/
theorem Provisions.of_error {b b' : Bool} {more : List Exchange} {e : Fault}
    (h : Provisions c b more (.error e) b') : b = false ∧ b' = false ∧ (∀ x ∈ more, Tries c x) ∧
      (∃ resource reason, e = .problem (.backendConflict resource reason)) ∧
      ∀ l x m, more = l ++ x :: m → ¬ Accepted x.answer → m = [] := by
  cases h with
  | @noFolder r hr e =>
    refine ⟨rfl, rfl, fun x hx => ?_, ⟨_, _, rfl⟩, fun l x m hm _ => ?_⟩
    · obtain rfl := List.mem_singleton.1 hx
      exact tries_createFolder c r
    · obtain ⟨rfl, h⟩ | ⟨l', rfl, h⟩ := List.cons_eq_append_iff.1 hm
      · exact (List.cons.inj h).2
      · simp at h
  | @noCollection r r' hr hr' e =>
    refine ⟨rfl, rfl, fun x hx => ?_, ⟨_, _, rfl⟩, fun l x m hm hx => ?_⟩
    · obtain rfl | hx := List.mem_cons.1 hx
      · exact tries_createFolder c r
      · obtain rfl := List.mem_singleton.1 hx
        exact ⟨create_begins c r', fun h => hr' h.2⟩
    · obtain ⟨rfl, h⟩ | ⟨l', rfl, h⟩ := List.cons_eq_append_iff.1 hm
      · obtain ⟨rfl, -⟩ := List.cons.inj h
        exact absurd hr hx
      · obtain ⟨rfl, h⟩ | ⟨l'', rfl, h⟩ := List.cons_eq_append_iff.1 h
        · exact (List.cons.inj h).2.symm
        · simp at h

/-! ### The rules of one call -/

namespace Converses

variable {b b' : Bool} {r : Except Fault α} {said : List Exchange}

theorem eq_nil (h : Converses c call b said r b') (hbad : call.Misnamed) : said = [] := by
  cases h with
  | silent => rfl
  | refused hnamed | served hnamed => exact absurd hbad hnamed

/-- Where the collection is not known to exist, a call begins by creating the folder. -/
theorem of_unknown (h : Converses c call false said r b') (hnamed : ¬ call.Misnamed) :
    ∃ answer rest, said = ⟨c.createFolder, answer⟩ :: rest := by
  cases h with
  | silent hbad => exact absurd hbad hnamed
  | refused _ hp => exact hp.of_unknown
  | served _ hp _ =>
    obtain ⟨answer, rest, rfl⟩ := hp.of_unknown
    exact ⟨answer, _, rfl⟩

/-- What was not accepted was the last thing that was said in its call. -/
theorem of_not_accepted {l m : List Exchange} {x : Exchange}
    (h : Converses c call b (l ++ x :: m) r b') (hx : x.Begins "create ") (ha : ¬ Accepted x.answer) :
    b' = false ∧ m = [] ∧
      ∃ resource reason, r = .error (.problem (.backendConflict resource reason)) := by
  generalize hsaid : l ++ x :: m = said at h
  cases h with
  | silent => simp at hsaid
  | refused _ hp =>
    obtain ⟨-, hb', -, ⟨resource, reason, rfl⟩, hlast⟩ := hp.of_error
    exact ⟨hb', hlast l x m hsaid.symm ha, resource, reason, rfl⟩
  | @served _ _ first rest _ _ hp herr =>
    have hmem : x ∈ first ++ rest := by
      rw [← hsaid]
      simp
    rcases List.mem_append.1 hmem with hmem | hmem
    · cases hp with
      | known => cases hmem
      | created hr hr' =>
        simp only [List.mem_cons, List.not_mem_nil, or_false] at hmem
        rcases hmem with rfl | rfl
        · exact absurd hr ha
        · exact absurd hr' ha
    · exact absurd hx (herr.not_begins_create x hmem)

/-- What a call says besides creating is said for its errand. -/
theorem errand {l m : List Exchange} {x : Exchange} (h : Converses c call b (l ++ x :: m) r b')
    (hx : x.command.toList.head? ≠ some 'c') :
    ∃ first l', l = first ++ l' ∧ Errand c call (l' ++ x :: m) := by
  generalize hsaid : l ++ x :: m = said at h
  cases h with
  | silent => simp at hsaid
  | refused _ hp =>
    have hmem : x ∈ said := by
      rw [← hsaid]
      simp
    exact absurd ((hp.begins_create x hmem).head? rfl) hx
  | @served _ _ first rest _ _ hp herr =>
    obtain ⟨n, hfirst, hn⟩ | ⟨l', hl, hrest⟩ := List.append_eq_append_iff.1 hsaid
    · cases n with
      | nil =>
        rw [List.append_nil] at hfirst
        exact ⟨l, [], (List.append_nil l).symm, by rw [List.nil_append, hn]; exact herr⟩
      | cons y n =>
        obtain ⟨rfl, -⟩ := List.cons.inj hn
        have hmem : x ∈ first := by
          rw [hfirst]
          simp
        exact absurd ((hp.begins_create x hmem).head? rfl) hx
    · exact ⟨first, l', hl, hrest ▸ herr⟩

end Converses

/-! ### Turns, one after another -/

/-- Each turn says what its call can say, with what is known of the collection by then. -/
inductive Goes (c : Collection) : Bool → List Turn → Prop where
  | nil (b : Bool) : Goes c b []
  | cons {b b' : Bool} {call : Call} {said : List Exchange} {r : Except Fault Unit} {ts : List Turn} :
    Converses c call b said r b' → Goes c b' ts → Goes c b (⟨call, said, r⟩ :: ts)

theorem goes_turns (z : Compression) (shell : Shell τ) (c : Collection) (s : State τ)
    (calls : List Call) : Goes c s.1 (turns z shell c s calls) := by
  induction calls generalizing s with
  | nil => exact .nil s.1
  | cons call rest ih =>
    obtain ⟨more, r, b', t', hres, hsays⟩ := says_perform z shell c call s.1 s.2 []
    rw [turns, hres, List.nil_append]
    exact .cons hsays (ih (b', t'))

theorem transcript_cons (t : Turn) (ts : List Turn) :
    transcript (t :: ts) = t.said ++ transcript ts := List.flatMap_cons

namespace Goes

variable {b : Bool} {t : Turn} {ts : List Turn}

theorem converses (h : Goes c b ts) (ht : t ∈ ts) :
    ∃ b₁ b₂, Converses c t.call b₁ t.said t.result b₂ := by
  induction h with
  | nil => cases ht
  | cons hsays _ ih =>
    obtain rfl | ht := List.mem_cons.1 ht
    · exact ⟨_, _, hsays⟩
    · exact ih ht

/-- The turns from some point on. -/
theorem of_append {l : List Turn} (h : Goes c b (l ++ ts)) : ∃ b', Goes c b' ts := by
  induction l generalizing b with
  | nil => exact ⟨b, h⟩
  | cons u l ih =>
    cases h with
    | cons _ h => exact ih h

/-- Calls that are no good leave everything as it is. -/
theorem of_misnamed {l : List Turn} (hl : ∀ v ∈ l, v.call.Misnamed) (h : Goes c b (l ++ ts)) :
    Goes c b ts := by
  induction l with
  | nil => exact h
  | cons u l ih =>
    obtain ⟨hu, hrest⟩ := List.forall_mem_cons.1 hl
    cases h with
    | cons hsays h =>
      cases hsays with
      | silent => exact ih hrest h
      | refused hnamed | served hnamed => exact absurd hu hnamed

/-- When the collection is known to exist, nothing is created. -/
theorem not_begins_create (h : Goes c b ts) (hb : b = true) :
    ∀ x ∈ transcript ts, ¬ x.Begins "create " := by
  induction h with
  | nil => exact fun x hx => absurd hx List.not_mem_nil
  | cons hsays _ ih =>
    subst hb
    rw [transcript_cons]
    cases hsays with
    | silent => exact ih rfl
    | refused _ hp => exact absurd hp.of_error.1 (by decide)
    | served _ hp herr =>
      cases hp with
      | known => exact List.forall_mem_append.2 ⟨herr.not_begins_create, ih rfl⟩

/-- **What a conversation looks like**: attempts that fail, and then, if ever, one that does not, after
which nothing is created any more. -/
theorem transcript_eq (h : Goes c b ts) (hb : b = false) : (∀ x ∈ transcript ts, Tries c x) ∨
    ∃ first r r' rest, transcript ts = first ++ ⟨c.createFolder, r⟩ :: ⟨c.create, r'⟩ :: rest ∧
      (∀ x ∈ first, Tries c x) ∧ Accepted r ∧ Accepted r' ∧ ∀ x ∈ rest, ¬ x.Begins "create " := by
  induction h with
  | nil => exact .inl fun x hx => absurd hx List.not_mem_nil
  | @cons b b' call said r ts hsays hts ih =>
    subst hb
    rw [transcript_cons]
    -- A call that leaves the collection unknown puts its attempt in front of what follows.
    have hfront (hb' : b' = false) (htries : ∀ x ∈ said, Tries c x) :
        (∀ x ∈ said ++ transcript ts, Tries c x) ∨ ∃ first r r' rest, said ++ transcript ts =
          first ++ ⟨c.createFolder, r⟩ :: ⟨c.create, r'⟩ :: rest ∧ (∀ x ∈ first, Tries c x) ∧
            Accepted r ∧ Accepted r' ∧ ∀ x ∈ rest, ¬ x.Begins "create " := by
      rcases ih hb' with h | ⟨first, r, r', rest, h, hfirst, hr⟩
      · exact .inl (List.forall_mem_append.2 ⟨htries, h⟩)
      · exact .inr ⟨said ++ first, r, r', rest, by rw [h, List.append_assoc],
          List.forall_mem_append.2 ⟨htries, hfirst⟩, hr⟩
    cases hsays with
    | silent => exact hfront rfl fun x hx => absurd hx List.not_mem_nil
    | refused _ hp => exact hfront hp.of_error.2.1 hp.of_error.2.2.1
    | @served _ _ _ rest _ _ hp herr =>
      cases hp with
      | @created r r' hr hr' =>
        exact .inr ⟨[], r, r', rest ++ transcript ts, rfl, fun x hx => absurd hx List.not_mem_nil,
          hr, hr', List.forall_mem_append.2 ⟨herr.not_begins_create, hts.not_begins_create rfl⟩⟩

end Goes

/-- Where something stands in a list that has two things in a row, and does not stand before them. -/
theorem eq_or_eq_or_after_of_append_eq {γ : Type} {first rest before after : List γ} {a a' x : γ}
    (h : first ++ a :: a' :: rest = before ++ x :: after) (hx : x ∉ first) :
    x = a ∨ (x = a' ∧ before = first ++ [a] ∧ after = rest) ∨
      ∃ n, before = first ++ a :: a' :: n ∧ rest = n ++ x :: after := by
  obtain ⟨n, rfl, hn⟩ | ⟨n, rfl, hn⟩ := List.append_eq_append_iff.1 h
  · cases n with
    | nil => exact .inl (List.cons.inj hn).1.symm
    | cons b n =>
      obtain ⟨hb, htail⟩ := List.cons.inj hn
      subst hb
      cases n with
      | nil =>
        obtain ⟨rfl, rfl⟩ := List.cons.inj htail
        exact .inr (.inl ⟨rfl, rfl, rfl⟩)
      | cons d n =>
        obtain ⟨rfl, rfl⟩ := List.cons.inj htail
        exact .inr (.inr ⟨n, rfl, rfl⟩)
  · cases n with
    | nil => exact .inl (List.cons.inj hn).1
    | cons b n =>
      obtain ⟨rfl, -⟩ := List.cons.inj hn
      exact absurd (by simp) hx

/-- **The rules of conversations.** Whatever the shell answers, and whatever is called of a new store
in whatever order. -/
theorem orderly_turns (z : Compression) (shell : Shell τ) (c : Collection) (t₀ : τ)
    (calls : List Call) : Orderly c (turns z shell c (false, t₀) calls) := by
  have hgoes := goes_turns z shell c (false, t₀) calls
  generalize turns z shell c (false, t₀) calls = ts at hgoes
  have hverb {x : Exchange} (h : x.Begins "list " ∨ x.Begins "modify " ∨ x.Begins "save ") :
      ¬ x.Begins "create " := by
    intro hc
    rcases h with h | h | h <;> cases (hc.head? rfl).symm.trans (h.head? rfl)
  constructor
  case silent =>
    intro t ht hbad
    obtain ⟨b, b', h⟩ := hgoes.converses ht
    exact h.eq_nil hbad
  case prepared =>
    intro before x after htr hx
    rcases hgoes.transcript_eq rfl with h | ⟨first, r, r', rest, h, hfirst, hr, hr', hrest⟩
    · exact absurd (h x (by rw [htr]; simp)).1 (hverb hx)
    · have hnew : x ∉ first := fun hmem => hverb hx (hfirst x hmem).1
      rcases eq_or_eq_or_after_of_append_eq (h.symm.trans htr) hnew with
        rfl | ⟨rfl, -, -⟩ | ⟨n, rfl, -⟩
      · exact absurd (tries_createFolder c r).1 (hverb hx)
      · exact absurd (create_begins c r') (hverb hx)
      · exact ⟨first, r, [], r', n, rfl, hr, hr'⟩
  case once =>
    intro l r r' m htr hr hr'
    have htr' : transcript ts = (l ++ [⟨c.createFolder, r⟩]) ++ ⟨c.create, r'⟩ :: m := by
      rw [htr, List.append_assoc]
      rfl
    rcases hgoes.transcript_eq rfl with h | ⟨first, a, a', rest, h, hfirst, -, -, hrest⟩
    · exact absurd ⟨rfl, hr'⟩ (h ⟨c.create, r'⟩ (by rw [htr]; simp)).2
    · have hnew : (⟨c.create, r'⟩ : Exchange) ∉ first := fun hmem => (hfirst _ hmem).2 ⟨rfl, hr'⟩
      rcases eq_or_eq_or_after_of_append_eq (h.symm.trans htr') hnew with
        heq | ⟨-, -, rfl⟩ | ⟨n, -, rfl⟩
      · exact absurd (congrArg Exchange.command heq).symm (createFolder_ne_create c)
      · exact hrest
      · exact absurd (create_begins c r') (hrest _ (by simp))
  case refused =>
    intro t ht l x m hsaid hx ha
    obtain ⟨b, b', h⟩ := hgoes.converses ht
    rw [hsaid] at h
    exact (h.of_not_accepted hx ha).2
  case retried =>
    intro l t m u n hts ht hm hu
    obtain ⟨b, hgoes⟩ := (hts ▸ hgoes).of_append
    obtain ⟨x, hmem, hx, ha⟩ := ht
    cases hgoes with
    | cons hsays hgoes =>
      obtain ⟨l', m', rfl⟩ := List.append_of_mem hmem
      obtain ⟨rfl, -⟩ := hsays.of_not_accepted hx ha
      cases hgoes.of_misnamed hm with
      | cons hsays _ => exact hsays.of_unknown hu
  case modified =>
    intro t ht l x m hsaid hx
    obtain ⟨b, b', h⟩ := hgoes.converses ht
    rw [hsaid] at h
    obtain ⟨first, l', rfl, herr⟩ := h.errand (by rw [hx.head? rfl]; decide)
    obtain ⟨rfl, text, rfl, hcall⟩ := herr.modifies (hx.head? rfl)
    exact ⟨rfl, first, text, rfl, hcall⟩
  case saved =>
    intro t ht x hsaid hx
    obtain ⟨b, b', h⟩ := hgoes.converses ht
    obtain ⟨l, m, hl⟩ := List.append_of_mem hsaid
    rw [hl] at h
    obtain ⟨first, l', -, herr⟩ := h.errand (by rw [hx.head? rfl]; decide)
    exact herr.saves (hx.head? rfl)

end ApplianceStore

end Stencil
