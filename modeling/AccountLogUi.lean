import AccountLogUi.Vault.Equiv.Listing
import AccountLogUi.Vault.Equiv.Params
import AccountLogUi.DataDir.Equiv.Crash
import AccountLogUi.Manager.Equiv.StartingOver
import AccountLogUi.Manager.Equiv.BrokenList
import AccountLogUi.Backend.Equiv.Dropped
import AccountLogUi.Backend.Equiv.Session
import AccountLogUi.Backend.Equiv.Order
import AccountLogUi.View.Equiv.Names
import AccountLogUi.Devices.Equiv.Alone
