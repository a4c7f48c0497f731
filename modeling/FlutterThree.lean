import FlutterThree.Lib.Machine
import FlutterThree.Lib.Serial
import FlutterThree.Lib.Firestore
import FlutterThree.Lib.Navigator
import FlutterThree.Lib.Storage
import FlutterThree.Lib.Regex
import FlutterThree.Lib.Future
import FlutterThree.Decode
import FlutterThree.Handlers
import FlutterThree.Users
import FlutterThree.Wallet
import FlutterThree.Documents
import FlutterThree.Interleaving
import FlutterThree.DetailsPage
import FlutterThree.AdminApp
import FlutterThree.Privileges
import FlutterThree.Deletion
import FlutterThree.UserList
import FlutterThree.Presses
import FlutterThree.Grid
import FlutterThree.Refresh
import FlutterThree.Upload
import FlutterThree.Register
import FlutterThree.Submitted
import FlutterThree.Validators
import FlutterThree.Submission
import FlutterThree.ClientApp
import FlutterThree.Closing
import FlutterThree.Client
import FlutterThree.Apps
import FlutterThree.Accounts
import FlutterThree.Ownership
import FlutterThree.AdminAccess
import FlutterThree.Authority
import FlutterThree.Reads
import FlutterThree.UpToDate
import FlutterThree.Messages
import FlutterThree.ClientView
import FlutterThree.Writers
import FlutterThree.Links
import FlutterThree.Authorship
import FlutterThree.Completion
