import Mathlib.Data.List.Basic

/-! The cache keys of accounts and of their workers. -/
namespace NodejsPool.Worker

def getMinerParts (miner : String) : String × String :=
  let address := miner.toList.takeWhile fun char => char != '_'
  match miner.toList.drop address.length with
  | [] => (miner,"")
  | _::worker => (String.ofList address,String.ofList worker)

def isWorkerKey (miner : String) : Bool := miner.toList.contains '_'

def includes (text part : String) : Bool := text.toList.tails.any fun tail => part.toList.isPrefixOf tail

def workerKey (account identifier : String) : String := account ++ "_" ++ identifier

variable {account : String}

theorem isWorkerKey_workerKey (account identifier : String) : isWorkerKey (workerKey account identifier) = true := by
  simp [isWorkerKey,workerKey,String.toList_append]

theorem getMinerParts_workerKey (plain : isWorkerKey account = false) (identifier : String) :
    getMinerParts (workerKey account identifier) = (account,identifier) := by
  have letters : ∀ char ∈ account.toList, (char != '_') = true := by
    intro char among
    rw [bne_iff_ne]
    intro same
    subst same
    rw [isWorkerKey,List.contains_iff_mem.mpr among] at plain
    cases plain
  have text : (workerKey account identifier).toList = account.toList ++ '_'::identifier.toList := by
    simp [workerKey,String.toList_append]
  have front : (workerKey account identifier).toList.takeWhile (fun char => char != '_') = account.toList := by
    rw [text,List.takeWhile_append_of_pos letters]
    simp
  unfold getMinerParts
  dsimp only
  rw [front,text,List.drop_left]
  simp [String.ofList_toList]

end NodejsPool.Worker
