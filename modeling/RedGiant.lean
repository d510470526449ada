import RedGiant.Core.PostingIndex
import RedGiant.Core.ExpireTable
import RedGiant.Core.BaseEventIndex
import RedGiant.Core.Refinement
import RedGiant.Core.Expiry
import RedGiant.Core.Snapshot
import RedGiant.Model.FeatureCache
import RedGiant.Main
import RedGiant.Restart
