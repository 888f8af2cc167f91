import FlightsOptimizer.Directory
import FlightsOptimizer.LoggerText
import FlightsOptimizer.Statefull

/-!
# Loggers that share a directory

A joiner and a grouper keep two logs in one directory, told apart by a suffix of
the names of their files. The methods of `commons/logger.py` are given here by
the names that they open and list. Where no suffix ends in the other, each
logger does and answers what it does and answers alone.
-/
namespace FlightsOptimizer.LogDirectory
open Text LineFile LoggerText

def connectionLog : Text := "connection_log.txt".toList

def communicationLog : Text := "communication_log.txt".toList

def duplicateCatcherLog : Text := "duplicate_catcher_log.txt".toList

section
variable (suffix : Text)

def communicationLogFilePath : Text := communicationLog ++ suffix

/-- `f"{client_id}_{CONNECTION_LOG_FILE_PATH}{self.suffix}"`. -/
def connectionPath (clientId : Text) : Text := clientId ++ '_' :: connectionLog ++ suffix

def duplicateCatcherPath (clientId : Text) : Text := clientId ++ '_' :: duplicateCatcherLog ++ suffix

/-- A file that is missing is read like one that is empty. -/
def read (name : Text) (d : Directory) : List Text := readLines ((d name).getD [])

/-- `delete_connection_messages` and `delete_duplicate_catcher_messages`. -/
def deleteMessages (name messageId : Text) (d : Directory) : Directory :=
  match read name d with
  | [] => d
  | lineToSearch :: _ =>
      if startsWith messageId lineToSearch then
        Function.update d name (some (truncateLastLine ((d name).getD [])))
      else d

/-- `Logger.restore`. -/
def restore (d : Directory) : Restoration ℤ × Directory :=
  let walk := restoreCommunication (read (communicationLogFilePath suffix) d)
  match walk with
  | .found .sent messageId clientId _ =>
      (walk.parse,deleteMessages (duplicateCatcherPath suffix clientId) messageId
        (deleteMessages (connectionPath suffix clientId) messageId d))
  | _ => (walk.parse,d)

def connectionMessage (l : Text) : Option Json :=
  match splitMax ['/'] 1 l with
  | [_,message] => Json.loads (strip message)
  | _ => none

/-- `int(file_name.split("_")[0])` of the listed names that end as the logs. -/
def activeClients (log : Text) (names : List Text) : Option (List ℤ) :=
  (names.filter fun name => (log ++ suffix).isSuffixOf name).mapM fun name =>
    (split ['_'] name).head?.bind toInt?

end

/-- The methods of a logger. -/
inductive Method
  | write (call : Call)
  | saveConnection (messageId clientId : ℤ) (messages : Json)
  | saveDuplicateCatcher (messageId clientId : ℤ)
  | restore
  | searchProcessed (clientId : ℤ) (idsToSearch : List ℤ)
  | obtainAllConnectionMessages (clientId : ℤ)
  | obtainAllActiveConnectionClients
  | obtainAllDuplicateCatcherMessages (clientId : ℤ)
  | obtainAllActiveDuplicateCatcherClients

inductive Answer
  | done
  | restored (restoration : Restoration ℤ)
  | processed (ids : Option (List Text))
  | connectionMessages (messages : Option (List Json))
  | duplicateCatcherMessages (messages : List Text)
  | clients (ids : Option (List ℤ))

/-- What a method of the logger with a suffix does in a directory. -/
inductive Performs (suffix : Text) : Method → Directory → Answer → Directory → Prop
  | write (call : Call) (d : Directory) : Performs suffix (.write call) d .done
      (d.append (communicationLogFilePath suffix) (unlines call.lines))
  | saveConnection (m c : ℤ) (messages : Json) (d : Directory) :
      Performs suffix (.saveConnection m c messages) d .done
        (d.append (connectionPath suffix (ofInt c)) (unlines [connectionLine m messages]))
  | saveDuplicateCatcher (m c : ℤ) (d : Directory) :
      Performs suffix (.saveDuplicateCatcher m c) d .done
        (d.append (duplicateCatcherPath suffix (ofInt c)) (unlines [ofInt m]))
  | restore (d : Directory) :
      Performs suffix .restore d (.restored (restore suffix d).1) (restore suffix d).2
  | searchProcessed (c : ℤ) (ids : List ℤ) (d : Directory) :
      Performs suffix (.searchProcessed c ids) d
        (.processed (search c ids none (read (communicationLogFilePath suffix) d))) d
  | obtainAllConnectionMessages (c : ℤ) (d : Directory) :
      Performs suffix (.obtainAllConnectionMessages c) d (.connectionMessages
        ((read (connectionPath suffix (ofInt c)) d).mapM connectionMessage)) d
  | obtainAllActiveConnectionClients {names : List Text} (d : Directory) : d.Lists names →
      Performs suffix .obtainAllActiveConnectionClients d
        (.clients (activeClients suffix connectionLog names)) d
  | obtainAllDuplicateCatcherMessages (c : ℤ) (d : Directory) :
      Performs suffix (.obtainAllDuplicateCatcherMessages c) d (.duplicateCatcherMessages
        ((read (duplicateCatcherPath suffix (ofInt c)) d).map strip)) d
  | obtainAllActiveDuplicateCatcherClients {names : List Text} (d : Directory) : d.Lists names →
      Performs suffix .obtainAllActiveDuplicateCatcherClients d
        (.clients (activeClients suffix duplicateCatcherLog names)) d

/-- What the same method does to the files of its logger, with the logs of the
clients listed in any order. -/
inductive Alone : Method → Files → Answer → Files → Prop
  | write (call : Call) (f : Files) : Alone (.write call) f .done
      {f with communication := f.communication ++ unlines call.lines}
  | saveConnection (m c : ℤ) (messages : Json) (f : Files) :
      Alone (.saveConnection m c messages) f .done (LoggerText.saveConnection m c messages f)
  | saveDuplicateCatcher (m c : ℤ) (f : Files) :
      Alone (.saveDuplicateCatcher m c) f .done (LoggerText.saveDuplicateCatcher m c f)
  | restore (f : Files) : Alone .restore f (.restored (LoggerText.restore f).1)
      (LoggerText.restore f).2
  | searchProcessed (c : ℤ) (ids : List ℤ) (f : Files) :
      Alone (.searchProcessed c ids) f (.processed (LoggerText.searchProcessed c ids f)) f
  | obtainAllConnectionMessages (c : ℤ) (f : Files) :
      Alone (.obtainAllConnectionMessages c) f
        (.connectionMessages (LoggerText.obtainAllConnectionMessages c f)) f
  | obtainAllActiveConnectionClients {names : List Text} (f : Files) :
      names.Perm f.connection.keys → Alone .obtainAllActiveConnectionClients f
        (.clients (Statefull.obtainAllActiveConnectionClients names)) f
  | obtainAllDuplicateCatcherMessages (c : ℤ) (f : Files) :
      Alone (.obtainAllDuplicateCatcherMessages c) f (.duplicateCatcherMessages
        ((readLines ((f.duplicateCatcher.get? (ofInt c)).getD [])).map strip)) f
  | obtainAllActiveDuplicateCatcherClients {names : List Text} (f : Files) :
      names.Perm f.duplicateCatcher.keys → Alone .obtainAllActiveDuplicateCatcherClients f
        (.clients (names.mapM toInt?)) f

variable {suffix suffix' clientId clientId' name : Text} {d d' : Directory} {f f' : Files}

theorem suffix_communication : suffix <:+ communicationLogFilePath suffix := List.suffix_append _ _

theorem suffix_connection : suffix <:+ connectionPath suffix clientId := List.suffix_append _ _

theorem suffix_duplicateCatcher : suffix <:+ duplicateCatcherPath suffix clientId :=
  List.suffix_append _ _

/-- The end of a name shows the log, whatever stands before it. -/
theorem not_suffix_of_logs {log log' front : Text} (hlog : ¬ log <:+ log') (hlog' : ¬ log' <:+ log) :
    ¬ log <:+ front ++ log' := by
  intro h
  rcases List.suffix_or_suffix_of_suffix h (List.suffix_append front log') with h | h
  · exact hlog h
  · exact hlog' h

theorem connection_ne_communication :
    connectionPath suffix clientId ≠ communicationLogFilePath suffix := by
  intro h
  have hfront := List.append_cancel_right h
  have hsuffix : '_' :: connectionLog <:+ communicationLog := by
    rw [← hfront]
    exact List.suffix_append _ _
  revert hsuffix
  decide

theorem duplicateCatcher_ne_communication :
    duplicateCatcherPath suffix clientId ≠ communicationLogFilePath suffix := by
  intro h
  have hfront := List.append_cancel_right h
  have hsuffix : '_' :: duplicateCatcherLog <:+ communicationLog := by
    rw [← hfront]
    exact List.suffix_append _ _
  revert hsuffix
  decide

theorem connection_ne_duplicateCatcher :
    connectionPath suffix clientId ≠ duplicateCatcherPath suffix clientId' := by
  intro h
  have hfront := List.append_cancel_right h
  have hsuffix : '_' :: connectionLog <:+ clientId' ++ '_' :: duplicateCatcherLog := by
    rw [← hfront]
    exact List.suffix_append _ _
  exact not_suffix_of_logs (by decide) (by decide) hsuffix

theorem connectionPath_injective (suffix : Text) :
    Function.Injective (connectionPath suffix) :=
  fun _ _ h => List.append_cancel_right (List.append_cancel_right h)

theorem duplicateCatcherPath_injective (suffix : Text) :
    Function.Injective (duplicateCatcherPath suffix) :=
  fun _ _ h => List.append_cancel_right (List.append_cancel_right h)

/-- The files that a logger opens are its own, and no other file is listed as
one of a client's logs. -/
structure Represents (suffix : Text) (d : Directory) (f : Files) : Prop where
  communication : (d (communicationLogFilePath suffix)).getD [] = f.communication
  connection : ∀ c, d (connectionPath suffix c) = f.connection.get? c
  duplicateCatcher : ∀ c, d (duplicateCatcherPath suffix c) = f.duplicateCatcher.get? c
  connectionNames : ∀ name, connectionLog ++ suffix <:+ name → (d name).isSome = true →
    ∃ z, name = connectionPath suffix (ofInt z)
  duplicateCatcherNames : ∀ name, duplicateCatcherLog ++ suffix <:+ name →
    (d name).isSome = true → ∃ z, name = duplicateCatcherPath suffix (ofInt z)

/-- Only names that end in its suffix matter to a logger. -/
theorem Represents.frame (h : Represents suffix d f)
    (ha : Directory.AgreeOn (fun name => suffix <:+ name) d d') : Represents suffix d' f where
  communication := by
    rw [← ha _ suffix_communication]
    exact h.communication
  connection := fun c => by
    rw [← ha _ suffix_connection]
    exact h.connection c
  duplicateCatcher := fun c => by
    rw [← ha _ suffix_duplicateCatcher]
    exact h.duplicateCatcher c
  connectionNames := fun name hname hsome => by
    rw [← ha name ((List.suffix_append _ _).trans hname)] at hsome
    exact h.connectionNames name hname hsome
  duplicateCatcherNames := fun name hname hsome => by
    rw [← ha name ((List.suffix_append _ _).trans hname)] at hsome
    exact h.duplicateCatcherNames name hname hsome

theorem isSome_update {text : Text}
    (hsome : (Function.update d name (some text) clientId).isSome = true) :
    clientId = name ∨ (d clientId).isSome = true := by
  by_cases hname : clientId = name
  · exact Or.inl hname
  · rw [Function.update_of_ne hname] at hsome
    exact Or.inr hsome

theorem Represents.setCommunication (h : Represents suffix d f) (text : Text) :
    Represents suffix (Function.update d (communicationLogFilePath suffix) (some text))
      {f with communication := text} where
  communication := by rw [Function.update_self]; rfl
  connection := fun c => by
    rw [Function.update_of_ne connection_ne_communication]
    exact h.connection c
  duplicateCatcher := fun c => by
    rw [Function.update_of_ne duplicateCatcher_ne_communication]
    exact h.duplicateCatcher c
  connectionNames := fun name hname hsome => by
    rcases isSome_update hsome with rfl | hsome
    · exact absurd (List.suffix_append_self_iff.mp hname) (by decide)
    · exact h.connectionNames name hname hsome
  duplicateCatcherNames := fun name hname hsome => by
    rcases isSome_update hsome with rfl | hsome
    · exact absurd (List.suffix_append_self_iff.mp hname) (by decide)
    · exact h.duplicateCatcherNames name hname hsome

theorem Represents.setConnection (h : Represents suffix d f) (z : ℤ) (text : Text) :
    Represents suffix (Function.update d (connectionPath suffix (ofInt z)) (some text))
      {f with connection := f.connection.set (ofInt z) text} where
  communication := by
    rw [Function.update_of_ne connection_ne_communication.symm]
    exact h.communication
  connection := fun c => by
    rw [Dict.get?_set]
    by_cases hc : ofInt z = c
    · rw [if_pos hc,← hc,Function.update_self]
    · rw [if_neg hc,Function.update_of_ne fun he => hc (connectionPath_injective suffix he).symm]
      exact h.connection c
  duplicateCatcher := fun c => by
    rw [Function.update_of_ne connection_ne_duplicateCatcher.symm]
    exact h.duplicateCatcher c
  connectionNames := fun name hname hsome => by
    rcases isSome_update hsome with rfl | hsome
    · exact ⟨z,rfl⟩
    · exact h.connectionNames name hname hsome
  duplicateCatcherNames := fun name hname hsome => by
    rcases isSome_update hsome with rfl | hsome
    · have hlog := List.suffix_append_self_iff.mp hname
      exact absurd hlog (not_suffix_of_logs (by decide) (by decide))
    · exact h.duplicateCatcherNames name hname hsome

theorem Represents.setDuplicateCatcher (h : Represents suffix d f) (z : ℤ) (text : Text) :
    Represents suffix (Function.update d (duplicateCatcherPath suffix (ofInt z)) (some text))
      {f with duplicateCatcher := f.duplicateCatcher.set (ofInt z) text} where
  communication := by
    rw [Function.update_of_ne duplicateCatcher_ne_communication.symm]
    exact h.communication
  connection := fun c => by
    rw [Function.update_of_ne connection_ne_duplicateCatcher]
    exact h.connection c
  duplicateCatcher := fun c => by
    rw [Dict.get?_set]
    by_cases hc : ofInt z = c
    · rw [if_pos hc,← hc,Function.update_self]
    · rw [if_neg hc,
        Function.update_of_ne fun he => hc (duplicateCatcherPath_injective suffix he).symm]
      exact h.duplicateCatcher c
  connectionNames := fun name hname hsome => by
    rcases isSome_update hsome with rfl | hsome
    · have hlog := List.suffix_append_self_iff.mp hname
      exact absurd hlog (not_suffix_of_logs (by decide) (by decide))
    · exact h.connectionNames name hname hsome
  duplicateCatcherNames := fun name hname hsome => by
    rcases isSome_update hsome with rfl | hsome
    · exact ⟨z,rfl⟩
    · exact h.duplicateCatcherNames name hname hsome

theorem Represents.deleteConnection (h : Represents suffix d f) (messageId clientId : Text) :
    Represents suffix (deleteMessages (connectionPath suffix clientId) messageId d)
      (deleteConnectionMessages messageId clientId f) := by
  have hfile := h.connection clientId
  unfold deleteMessages deleteConnectionMessages LoggerText.deleteMessages LogDirectory.read
  rw [hfile]
  cases hget : f.connection.get? clientId with
  | none => exact h
  | some file =>
      obtain ⟨z,hz⟩ := h.connectionNames (connectionPath suffix clientId)
        (List.suffix_append_self_iff.mpr ⟨clientId ++ ['_'],by simp⟩) (by rw [hfile,hget]; rfl)
      obtain rfl := connectionPath_injective suffix hz
      rw [Option.getD_some]
      dsimp only
      rcases readLines file with _ | ⟨lineToSearch,_⟩
      · exact h
      · dsimp only
        split_ifs
        · exact h.setConnection z _
        · exact h

theorem Represents.deleteDuplicateCatcher (h : Represents suffix d f) (messageId clientId : Text) :
    Represents suffix (deleteMessages (duplicateCatcherPath suffix clientId) messageId d)
      (deleteDuplicateCatcherMessages messageId clientId f) := by
  have hfile := h.duplicateCatcher clientId
  unfold deleteMessages deleteDuplicateCatcherMessages LoggerText.deleteMessages LogDirectory.read
  rw [hfile]
  cases hget : f.duplicateCatcher.get? clientId with
  | none => exact h
  | some file =>
      obtain ⟨z,hz⟩ := h.duplicateCatcherNames (duplicateCatcherPath suffix clientId)
        (List.suffix_append_self_iff.mpr ⟨clientId ++ ['_'],by simp⟩) (by rw [hfile,hget]; rfl)
      obtain rfl := duplicateCatcherPath_injective suffix hz
      rw [Option.getD_some]
      dsimp only
      rcases readLines file with _ | ⟨lineToSearch,_⟩
      · exact h
      · dsimp only
        split_ifs
        · exact h.setDuplicateCatcher z _
        · exact h

/-- Restoring takes the same way, and deletes the same lines. -/
theorem Represents.restore (h : Represents suffix d f) :
    (LogDirectory.restore suffix d).1 = (LoggerText.restore f).1 ∧
      Represents suffix (LogDirectory.restore suffix d).2 (LoggerText.restore f).2 := by
  unfold LogDirectory.restore LoggerText.restore LogDirectory.read
  rw [h.communication]
  cases restoreCommunication (readLines f.communication) with
  | nothing => exact ⟨rfl,h⟩
  | raises => exact ⟨rfl,h⟩
  | found restoreType messageId clientId state =>
      cases restoreType with
      | sent => exact ⟨rfl,(h.deleteConnection _ _).deleteDuplicateCatcher _ _⟩
      | commit => exact ⟨rfl,h⟩
      | saveDone => exact ⟨rfl,h⟩

theorem head_split {x : Char} {a : Text} (ha : x ∉ a) (rest : Text) :
    (split [x] (a ++ x :: rest)).head? = some a := by
  have hclean : Framing.Clean ([] ++ x :: []) a := clean_of_not_mem ha List.not_mem_nil
  have hfirst : Framing.splitFirst [x] (a ++ [x] ++ rest) = some (a,rest) :=
    Framing.splitFirst_clean hclean rest
  have hlist : a ++ x :: rest = a ++ [x] ++ rest := by simp
  obtain ⟨n,hn⟩ : ∃ n, (a ++ [x] ++ rest).length = n+1 :=
    ⟨a.length+rest.length,by simp only [List.length_append,List.length_singleton]; omega⟩
  unfold split
  rw [hlist,hn,splitMax,hfirst]
  rfl

theorem exists_map {α β : Type} {g : α → β} {bs : List β} (h : ∀ b ∈ bs, ∃ a, b = g a) :
    ∃ as : List α, bs = as.map g := by
  induction bs with
  | nil => exact ⟨[],rfl⟩
  | cons b bs ih =>
      obtain ⟨a,rfl⟩ := h b List.mem_cons_self
      obtain ⟨as,rfl⟩ := ih fun b hb => h b (List.mem_cons_of_mem _ hb)
      exact ⟨a :: as,rfl⟩

/-- The listed names that end as the logs begin with the clients that have one,
in the order of the listing. -/
theorem activeClients_eq {path : Text → Text} {log : Text} {names : List Text}
    {logs : Dict Text Text} (hpath : ∀ c, path c = c ++ '_' :: log ++ suffix)
    (hlists : d.Lists names) (hnames : ∀ name, log ++ suffix <:+ name →
      (d name).isSome = true → ∃ z, name = path (ofInt z))
    (hlogs : ∀ c, d (path c) = logs.get? c) : ∃ clients : List Text,
      clients.Perm logs.keys ∧ activeClients suffix log names = clients.mapM toInt? := by
  have hinj : Function.Injective path := by
    intro a c h
    rw [hpath,hpath] at h
    exact List.append_cancel_right (List.append_cancel_right h)
  have hends : ∀ c, log ++ suffix <:+ path c := by
    intro c
    rw [hpath]
    exact List.suffix_append_self_iff.mpr ⟨c ++ ['_'],by simp⟩
  have hmem : ∀ name, name ∈ names.filter (fun name => (log ++ suffix).isSuffixOf name) ↔
      log ++ suffix <:+ name ∧ (d name).isSome = true := by
    intro name
    rw [List.mem_filter,List.isSuffixOf_iff_suffix,hlists.mem,and_comm]
  obtain ⟨zs,hzs⟩ := exists_map fun name hname =>
    hnames name ((hmem name).mp hname).1 ((hmem name).mp hname).2
  have hkeys : ∀ c, c ∈ zs.map ofInt ↔ c ∈ logs.keys := by
    intro c
    rw [Dict.mem_keys_iff,← hlogs]
    constructor
    · intro hc
      obtain ⟨z,hz,rfl⟩ := List.mem_map.mp hc
      refine ((hmem _).mp ?_).2
      rw [hzs]
      exact List.mem_map_of_mem hz
    · intro hc
      have hname := (hmem (path c)).mpr ⟨hends c,hc⟩
      rw [hzs] at hname
      obtain ⟨z,hz,he⟩ := List.mem_map.mp hname
      rw [← hinj he]
      exact List.mem_map_of_mem hz
  have hnodup : (zs.map ofInt).Nodup := by
    have hn := hlists.nodup.filter fun name => (log ++ suffix).isSuffixOf name
    rw [hzs] at hn
    exact (hn.of_map _).map ofInt_injective
  refine ⟨zs.map ofInt,(List.perm_ext_iff_of_nodup hnodup logs.distinct).mpr hkeys,?_⟩
  unfold activeClients
  rw [hzs,mapM_map_eq_some toInt?_ofInt]
  refine mapM_map_eq_some (fun z => ?_) zs
  have hunder : '_' ∉ ofInt z := not_mem_ofInt (by decide) rfl z
  rw [hpath,List.append_assoc,List.cons_append,head_split hunder,Option.bind_some,toInt?_ofInt]

variable {method : Method} {answer : Answer}

theorem agreeOn_update {name text : Text} (hname : suffix <:+ name) (d : Directory) :
    Directory.AgreeOn (fun name => ¬ suffix <:+ name) d (Function.update d name (some text)) := by
  intro other hother
  refine (Function.update_of_ne (fun he => hother ?_) _ d).symm
  rw [he]
  exact hname

theorem agreeOn_delete {name : Text} (hname : suffix <:+ name) (messageId : Text) (d : Directory) :
    Directory.AgreeOn (fun name => ¬ suffix <:+ name) d (deleteMessages name messageId d) := by
  unfold deleteMessages
  split
  · exact fun _ _ => rfl
  · split_ifs
    · exact agreeOn_update hname d
    · exact fun _ _ => rfl

/-- A method leaves the files of other suffixes as they are. -/
theorem Performs.frame (h : Performs suffix method d answer d') :
    Directory.AgreeOn (fun name => ¬ suffix <:+ name) d d' := by
  cases h with
  | write call => exact agreeOn_update suffix_communication d
  | saveConnection m c messages => exact agreeOn_update suffix_connection d
  | saveDuplicateCatcher m c => exact agreeOn_update suffix_duplicateCatcher d
  | restore =>
      unfold LogDirectory.restore
      dsimp only
      split
      · exact (agreeOn_delete suffix_connection _ d).trans
          (agreeOn_delete suffix_duplicateCatcher _ _)
      · exact fun _ _ => rfl
  | _ => exact fun _ _ => rfl

/-- A method answers what it answers alone, and does the same. -/
theorem Represents.performs (h : Represents suffix d f) (hp : Performs suffix method d answer d') :
    ∃ f', Alone method f answer f' ∧ Represents suffix d' f' := by
  cases hp with
  | write call =>
      refine ⟨_,.write call f,?_⟩
      rw [← h.communication]
      exact h.setCommunication _
  | saveConnection m c messages =>
      refine ⟨_,.saveConnection m c messages f,?_⟩
      unfold Directory.append
      rw [h.connection]
      exact h.setConnection c _
  | saveDuplicateCatcher m c =>
      refine ⟨_,.saveDuplicateCatcher m c f,?_⟩
      unfold Directory.append
      rw [h.duplicateCatcher]
      exact h.setDuplicateCatcher c _
  | restore =>
      obtain ⟨hanswer,hrest⟩ := h.restore
      rw [hanswer]
      exact ⟨_,.restore f,hrest⟩
  | searchProcessed c ids =>
      refine ⟨f,?_,h⟩
      unfold LogDirectory.read
      rw [h.communication]
      exact .searchProcessed c ids f
  | obtainAllConnectionMessages c =>
      refine ⟨f,?_,h⟩
      have halone : (LogDirectory.read (connectionPath suffix (ofInt c)) d).mapM connectionMessage =
          LoggerText.obtainAllConnectionMessages c f := by
        unfold LogDirectory.read LoggerText.obtainAllConnectionMessages
        rw [h.connection]
        cases f.connection.get? (ofInt c) <;> rfl
      rw [halone]
      exact .obtainAllConnectionMessages c f
  | obtainAllActiveConnectionClients _ hlists =>
      obtain ⟨clients,hperm,hanswer⟩ := activeClients_eq (fun _ => rfl) hlists h.connectionNames
        h.connection
      rw [hanswer]
      exact ⟨f,.obtainAllActiveConnectionClients f hperm,h⟩
  | obtainAllDuplicateCatcherMessages c =>
      refine ⟨f,?_,h⟩
      unfold LogDirectory.read
      rw [h.duplicateCatcher]
      exact .obtainAllDuplicateCatcherMessages c f
  | obtainAllActiveDuplicateCatcherClients _ hlists =>
      obtain ⟨clients,hperm,hanswer⟩ := activeClients_eq (fun _ => rfl) hlists
        h.duplicateCatcherNames h.duplicateCatcher
      rw [hanswer]
      exact ⟨f,.obtainAllActiveDuplicateCatcherClients f hperm,h⟩

variable {ι : Type} {suffixes : ι → Text} {steps : List (ι × Method × Answer)}

/-- The methods of several loggers in any order, in one directory. -/
inductive Run (suffixes : ι → Text) (d : Directory) :
    List (ι × Method × Answer) → Directory → Prop
  | start : Run suffixes d [] d
  | step {steps : List (ι × Method × Answer)} {d' d'' : Directory} {i : ι} {method : Method}
      {answer : Answer} : Run suffixes d steps d' → Performs (suffixes i) method d' answer d'' →
      Run suffixes d (steps ++ [(i,method,answer)]) d''

/-- The methods of one logger on its files. -/
inductive RunAlone (f : Files) : List (Method × Answer) → Files → Prop
  | start : RunAlone f [] f
  | step {steps : List (Method × Answer)} {f' f'' : Files} {method : Method} {answer : Answer} :
      RunAlone f steps f' → Alone method f' answer f'' →
      RunAlone f (steps ++ [(method,answer)]) f''

def stepsOf [DecidableEq ι] (i : ι) (steps : List (ι × Method × Answer)) :
    List (Method × Answer) :=
  (steps.filter fun s => s.1 = i).map Prod.snd

/-- No suffix ends in another. -/
def Apart (suffixes : ι → Text) : Prop := ∀ i j, i ≠ j → ¬ suffixes i <:+ suffixes j

theorem Apart.agreeOn {i j : ι} (h : Apart suffixes) (hij : i ≠ j)
    (ha : Directory.AgreeOn (fun name => ¬ suffixes i <:+ name) d d') :
    Directory.AgreeOn (fun name => suffixes j <:+ name) d d' := by
  intro name hname
  refine ha name fun hi => ?_
  rcases List.suffix_or_suffix_of_suffix hi hname with hs | hs
  · exact h i j hij hs
  · exact h j i hij.symm hs

theorem Run.alone [DecidableEq ι] (hs : Apart suffixes) (h : Run suffixes d steps d') {i : ι}
    (hi : Represents (suffixes i) d f) :
    ∃ f', RunAlone f (stepsOf i steps) f' ∧ Represents (suffixes i) d' f' := by
  induction h with
  | start => exact ⟨f,.start,hi⟩
  | @step steps d' d'' j method answer _ hp ih =>
      obtain ⟨f',hrun,hrep⟩ := ih
      unfold stepsOf
      rw [List.filter_append,List.map_append]
      by_cases hij : j = i
      · subst hij
        obtain ⟨f'',halone,hrep'⟩ := hrep.performs hp
        refine ⟨f'',?_,hrep'⟩
        rw [List.filter_singleton,decide_eq_true rfl]
        exact hrun.step halone
      · refine ⟨f',?_,hrep.frame (hs.agreeOn hij hp.frame)⟩
        rw [List.filter_singleton,decide_eq_false hij]
        exact (List.append_nil _).symm ▸ hrun

/-- No file has a name that the logger opens or lists. -/
structure Unused (suffix : Text) (d : Directory) : Prop where
  communication : d (communicationLogFilePath suffix) = none
  connection : ∀ name, connectionLog ++ suffix <:+ name → d name = none
  duplicateCatcher : ∀ name, duplicateCatcherLog ++ suffix <:+ name → d name = none

theorem Unused.represents (h : Unused suffix d) : Represents suffix d ⟨[],.empty,.empty⟩ where
  communication := by
    rw [h.communication]
    rfl
  connection := fun c => h.connection _ (List.suffix_append_self_iff.mpr ⟨c ++ ['_'],by simp⟩)
  duplicateCatcher := fun c =>
    h.duplicateCatcher _ (List.suffix_append_self_iff.mpr ⟨c ++ ['_'],by simp⟩)
  connectionNames := fun name hname hsome => by
    rw [h.connection name hname] at hsome
    cases hsome
  duplicateCatcherNames := fun name hname hsome => by
    rw [h.duplicateCatcher name hname] at hsome
    cases hsome

/-- Loggers whose suffixes do not end in each other, whatever the order of their
methods, answer and write what each does alone on its own files. -/
theorem loggers_alone [DecidableEq ι] (hs : Apart suffixes) (hd : ∀ i, Unused (suffixes i) d)
    (h : Run suffixes d steps d') (i : ι) :
    ∃ f, RunAlone ⟨[],.empty,.empty⟩ (stepsOf i steps) f ∧ Represents (suffixes i) d' f :=
  h.alone hs (hd i).represents

/-- The two loggers of a grouper, for the flights and for the averages. -/
def grouperSuffixes (mediaGeneral : Bool) : Text :=
  if mediaGeneral then "media_general".toList else "vuelos".toList

theorem grouper_apart : Apart grouperSuffixes := by
  intro i j
  cases i <;> cases j <;> decide

/-- The two loggers of a joiner, for the airports and for the flights. -/
def joinerSuffixes (joiner : Bool) : Text :=
  if joiner then "joiner".toList else "lat_long".toList

theorem joiner_apart : Apart joinerSuffixes := by
  intro i j
  cases i <;> cases j <;> decide

theorem unused_empty (suffix : Text) : Unused suffix Directory.empty :=
  ⟨rfl,fun _ _ => rfl,fun _ _ => rfl⟩

/-- The logger of the averages lists no client when that of the flights has
saved a batch, and the other does. -/
theorem loggers_alone_grouper : ∃ f f',
    RunAlone ⟨[],.empty,.empty⟩ [(.obtainAllActiveConnectionClients,.clients (some []))] f ∧
    RunAlone ⟨[],.empty,.empty⟩ [(.saveConnection 7 5 (.arr []),.done),
      (.obtainAllActiveConnectionClients,.clients (some [5]))] f' := by
  have hlists : (Directory.empty.append (connectionPath (grouperSuffixes false) (ofInt 5))
      (unlines [connectionLine 7 (.arr [])])).Lists
      [connectionPath (grouperSuffixes false) (ofInt 5)] := by
    refine ⟨List.nodup_singleton _,fun name => ?_⟩
    rw [List.mem_singleton]
    constructor
    · rintro rfl
      rw [Directory.append_self]
      rfl
    · intro hsome
      rcases isSome_update hsome with he | hsome
      · exact he
      · cases hsome
  have hrun := ((.start : Run grouperSuffixes Directory.empty [] Directory.empty).step
    (i := false) (.saveConnection 7 5 (.arr []) _)).step (i := true)
    (.obtainAllActiveConnectionClients _ hlists)
  have hrun := hrun.step (i := false) (.obtainAllActiveConnectionClients _ hlists)
  obtain ⟨f,hf,_⟩ := loggers_alone grouper_apart (fun i => unused_empty _) hrun true
  obtain ⟨f',hf',_⟩ := loggers_alone grouper_apart (fun i => unused_empty _) hrun false
  exact ⟨f,f',hf,hf'⟩

end FlightsOptimizer.LogDirectory
